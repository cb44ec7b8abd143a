import RecipeClient.Json.Read

/-!
# Written strings are read back

A step that goes on has come through its first part. Behind a value stands a comma, a closing
bracket or brace, or the end of the text. A string is read to its closing quote, whatever stands
behind it.
-/

namespace RecipeClient.Json

/-! ## Steps -/

section Steps

variable {ε α β : Type}

@[simp]
theorem ok_bind (a : α) (f : α → Except ε β) : (Except.ok a >>= f) = f a := rfl

theorem bind_eq_ok {x : Except ε α} {f : α → Except ε β} {b : β} :
    (x >>= f) = .ok b ↔ ∃ a, x = .ok a ∧ f a = .ok b := by
  cases x with
  | error e => simp [bind, Except.bind]
  | ok a => simp

theorem map_eq_ok {x : Except ε α} {f : α → β} {b : β} :
    x.map f = .ok b ↔ ∃ a, x = .ok a ∧ f a = b := by
  cases x with
  | error e => simp [Except.map]
  | ok a => simp [Except.map]

theorem mapError_eq_ok {ε' : Type} {x : Except ε α} {f : ε → ε'} {a : α} :
    x.mapError f = .ok a ↔ x = .ok a := by
  cases x with
  | error e =>
    constructor
    · intro h
      cases h
    · intro h
      cases h
  | ok b =>
    show Except.ok b = Except.ok a ↔ _
    rw [Except.ok.injEq, Except.ok.injEq]

@[simp]
theorem pure_eq_ok {a b : α} : (pure a : Except ε α) = .ok b ↔ a = b := Except.ok.injEq a b ▸ Iff.rfl

theorem unless_throw_eq_ok {c : Prop} [Decidable c] {e : ε} {rest : PUnit → Except ε α} {a : α} :
    (if c then throw e >>= rest else rest ⟨⟩) = .ok a ↔ ¬ c ∧ rest ⟨⟩ = .ok a := by
  by_cases hc : c
  · rw [if_pos hc]
    exact ⟨nofun, fun h => absurd hc h.1⟩
  · rw [if_neg hc]
    exact ⟨fun h => ⟨hc, h⟩, fun h => h.2⟩

theorem ok_pair_inj {a c : α} {b d : β} :
    (Except.ok (a, b) : Except ε (α × β)) = .ok (c, d) ↔ a = c ∧ b = d := by
  simp

theorem ok_of_toOption {x : Except ε α} {a : α} (h : x.toOption = some a) : x = .ok a := by
  cases x with
  | error e => cases h
  | ok b => exact congrArg Except.ok (Option.some.inj h)

end Steps

/-- What stands behind a value: a comma, a closing bracket or brace, or the end of the text. -/
def Ends (tail : List Char) : Prop := ∀ c ∈ tail.head?, c = ',' ∨ c = ']' ∨ c = '\x7d'

theorem ends_nil : Ends [] := by
  intro c hc
  exact absurd hc (Option.not_mem_none c)

theorem ends_cons {c : Char} {cs : List Char} (h : c = ',' ∨ c = ']' ∨ c = '\x7d') :
    Ends (c :: cs) := by
  intro d hd
  obtain rfl := Option.some.inj hd
  exact h

/-- Nothing behind a value continues a number. -/
theorem Ends.not_isDigit {tail : List Char} (h : Ends tail) :
    ∀ c ∈ tail.head?, c.isDigit = false := by
  intro c hc
  rcases h c hc with rfl | rfl | rfl <;> decide

@[simp]
theorem skipSpace_nil : skipSpace [] = [] := rfl

theorem skipSpace_cons {c : Char} (h : isSpace c = false) (cs : List Char) :
    skipSpace (c :: cs) = c :: cs := by
  simp [skipSpace, h]

/-! ## Strings -/

theorem codeUnit?_hexDigit : ∀ n < 32,
    codeUnit? '0' '0' (hexDigit (n / 16)) (hexDigit (n % 16)) = some n := by
  decide

/-- A character of a written string is read back. -/
theorem stringFrom_escape (sofar : List Char) (c : Char) (cs : List Char) :
    stringFrom sofar (escape c ++ cs) = stringFrom (c :: sofar) cs := by
  unfold escape
  -- the characters with an escape of their own come first, in the order of `escape`
  split
  · subst c; simp [stringFrom, escapedChar?]
  split
  · subst c; simp [stringFrom, escapedChar?]
  split
  · subst c; simp [stringFrom, escapedChar?]
  split
  · subst c; simp [stringFrom, escapedChar?]
  split
  · subst c; simp [stringFrom, escapedChar?]
  split
  · subst c; simp [stringFrom, escapedChar?]
  split
  · subst c; simp [stringFrom, escapedChar?]
  split
  · rename_i hcontrol
    have hlt : c.toNat < 32 := hcontrol
    -- a control character is far below the surrogates, so it needs no second half
    have hhalves : isSecondHalf c.toNat = false ∧ isFirstHalf c.toNat = false := by
      simp only [isSecondHalf, isFirstHalf, Bool.and_eq_false_iff, decide_eq_false_iff_not]
      omega
    simp only [List.cons_append, List.nil_append, stringFrom, codeUnit?_hexDigit c.toNat hlt,
      hhalves.1, hhalves.2, Bool.false_eq_true, if_false, Char.ofNat_toNat]
  · rename_i hquote hslash _ _ _ _ _ hcontrol
    simp [stringFrom, hslash, hcontrol]

theorem stringFrom_flatMap_escape (sofar cs tail : List Char) :
    stringFrom sofar (cs.flatMap escape ++ '"' :: tail) = .ok (sofar.reverse ++ cs, tail) := by
  induction cs generalizing sofar with
  | nil => simp [stringFrom]
  | cons c cs ih =>
    -- one character is read at a time; those read so far stand in reverse order
    rw [List.flatMap_cons, List.append_assoc, stringFrom_escape, ih, List.reverse_cons,
      List.append_assoc, List.singleton_append]

/-- A written string is read back, whatever stands behind it. -/
theorem scanString_stringChars (s : String) (tail : List Char) :
    scanString (s.toList.flatMap escape ++ '"' :: tail) = .ok (s, tail) := by
  rw [scanString, stringFrom_flatMap_escape, ok_bind, List.reverse_nil, List.nil_append]
  exact congrArg (fun read => Except.ok (read, tail)) String.ofList_toList

theorem stringChars_append (s : String) (tail : List Char) :
    stringChars s ++ tail = '"' :: (s.toList.flatMap escape ++ '"' :: tail) := by
  rw [stringChars, List.cons_append, List.append_assoc, List.singleton_append]

end RecipeClient.Json
