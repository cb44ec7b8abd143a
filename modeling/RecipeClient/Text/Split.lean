/-!
# Splitting texts

The parts of a text between separators. There is one part more than there are separators, and the
parts may be empty.
-/

namespace RecipeClient.Text

/-- Puts a character in front of the first of several parts. -/
def consFirst (c : Char) : List (List Char) → List (List Char)
  | [] => [[c]]
  | part :: parts => (c :: part) :: parts

/-- The parts of a text between the characters of a kind. -/
def split (separates : Char → Bool) : List Char → List (List Char)
  | [] => [[]]
  | c :: cs =>
    if separates c then [] :: split separates cs else consFirst c (split separates cs)

/-- There is at least one part. -/
theorem split_ne_nil (separates : Char → Bool) (cs : List Char) : split separates cs ≠ [] := by
  cases cs with
  | nil => simp [split]
  | cons c cs =>
    unfold split
    split
    · simp
    · cases split separates cs <;> simp [consFirst]

/-- No part holds a separator. -/
theorem separates_eq_false_of_mem_split {separates : Char → Bool} {cs part : List Char}
    (h : part ∈ split separates cs) : ∀ c ∈ part, separates c = false := by
  induction cs generalizing part with
  | nil => simp_all [split]
  | cons c cs ih =>
    unfold split at h
    split at h
    · rcases List.mem_cons.mp h with rfl | h
      · simp
      · exact ih h
    · rename_i hc
      cases hs : split separates cs with
      | nil => exact absurd hs (split_ne_nil separates cs)
      | cons first rest =>
        rw [hs] at ih h
        rcases List.mem_cons.mp h with rfl | h
        · intro d hd
          rcases List.mem_cons.mp hd with rfl | hd
          · simpa using hc
          · exact ih (List.mem_cons_self ..) d hd
        · exact ih (List.mem_cons_of_mem _ h)

theorem split_of_separates_eq_false {separates : Char → Bool} {part : List Char}
    (h : ∀ c ∈ part, separates c = false) : split separates part = [part] := by
  induction part with
  | nil => rfl
  | cons c cs ih =>
    have hc : separates c = false := h c (List.mem_cons_self ..)
    rw [split, if_neg (by simp [hc]), ih fun d hd => h d (List.mem_cons_of_mem _ hd)]
    rfl

theorem split_append_cons {separates : Char → Bool} {part : List Char} {c : Char}
    (h : ∀ d ∈ part, separates d = false) (hc : separates c = true) (rest : List Char) :
    split separates (part ++ c :: rest) = part :: split separates rest := by
  induction part with
  | nil => rw [List.nil_append, split, if_pos hc]
  | cons d ds ih =>
    have hd : separates d = false := h d (List.mem_cons_self ..)
    -- the part is built up from its end, so the separator is met first
    rw [List.cons_append, split, if_neg (by simp [hd]),
      ih fun e he => h e (List.mem_cons_of_mem _ he)]
    rfl

/-- A text is divided at the first character of a kind. -/
theorem span_append_cons {p : Char → Bool} {cs : List Char} {c : Char}
    (h : ∀ d ∈ cs, p d = true) (hc : p c = false) (rest : List Char) :
    (cs ++ c :: rest).takeWhile p = cs ∧ (cs ++ c :: rest).dropWhile p = c :: rest := by
  rw [List.takeWhile_append_of_pos h, List.dropWhile_append_of_pos h]
  simp [hc]

theorem bne_of_not_mem {cs : List Char} {c : Char} (h : c ∉ cs) : ∀ d ∈ cs, (d != c) = true := by
  intro d hd
  have hne : d ≠ c := fun heq => h (heq ▸ hd)
  simp [hne]

end RecipeClient.Text
