import Mathlib.Data.List.TakeWhile
import RecipeClient.Proofs.Json.SkippedReading

/-!
# What a step takes stands in front

A step takes a value off the front of a text, and what it takes it for depends on that front only:
with another text behind it the same value is taken, as long as no more of the value can follow.
Behind a value stands space, a comma, a closing bracket or brace, or nothing. A string or a word may
be followed by anything, since it ends by itself.

- `Follows`: what can stand behind a value
- `scanString_front`, `scanNumber_front`: the front of a scalar
- `skipValue_front`: the front of a value that is passed over
-/

namespace RecipeClient.Json

/-! ## Space -/

/-- A text that is nothing but space. -/
def Blank (space : List Char) : Prop := ∀ c ∈ space, isSpace c = true

theorem blank_nil : Blank [] := fun _ hc => absurd hc List.not_mem_nil

theorem Blank.append {space more : List Char} (h : Blank space) (hmore : Blank more) :
    Blank (space ++ more) := by
  intro c hc
  rcases List.mem_append.mp hc with hc | hc
  · exact h c hc
  · exact hmore c hc

theorem skipSpace_append {space : List Char} (h : Blank space) (cs : List Char) :
    skipSpace (space ++ cs) = skipSpace cs := by
  induction space with
  | nil => rfl
  | cons c space ih =>
    have hc : isSpace c = true := h c (List.mem_cons_self ..)
    rw [List.cons_append, skipSpace, List.dropWhile_cons_of_pos hc]
    exact ih fun d hd => h d (List.mem_cons_of_mem _ hd)

/-- The space in front of a token is passed over. -/
theorem skipSpace_token {space : List Char} (h : Blank space) {c : Char} (hc : isSpace c = false)
    (cs : List Char) : skipSpace (space ++ c :: cs) = c :: cs := by
  rw [skipSpace_append h, skipSpace_cons hc]

theorem skipSpace_null {space : List Char} (h : Blank space) (cs : List Char) :
    skipSpace (space ++ ("null".toList ++ cs)) = 'n' :: ("ull".toList ++ cs) :=
  skipSpace_token h (by decide) _

/-- The space in front of what is left without it. -/
theorem exists_space {cs front : List Char} (h : skipSpace cs = front) :
    ∃ space, cs = space ++ front ∧ Blank space := by
  refine ⟨cs.takeWhile isSpace, ?_, fun c hc => List.mem_takeWhile_imp hc⟩
  rw [← h]
  exact List.takeWhile_append_dropWhile.symm

theorem skipSpace_eq_nil {cs : List Char} : skipSpace cs = [] ↔ Blank cs :=
  List.dropWhile_eq_nil_iff

theorem finish_eq_ok {cs : List Char} : finish cs = .ok () ↔ Blank cs := by
  rw [← skipSpace_eq_nil, finish]
  split
  · rename_i h
    simp [h]
  · rename_i h
    simp [h]

/-- What can stand behind a value. -/
def Follows (tail : List Char) : Prop :=
  ∀ c ∈ tail.head?, isSpace c = true ∨ c = ',' ∨ c = ']' ∨ c = '\x7d'

theorem follows_cons {c : Char} {cs : List Char}
    (h : isSpace c = true ∨ c = ',' ∨ c = ']' ∨ c = '\x7d') : Follows (c :: cs) := by
  intro d hd
  obtain rfl := Option.some.inj hd
  exact h

theorem Ends.follows {tail : List Char} (h : Ends tail) : Follows tail :=
  fun c hc => Or.inr (h c hc)

theorem Blank.follows {space : List Char} (h : Blank space) : Follows space :=
  fun c hc => Or.inl (h c (List.mem_of_mem_head? hc))

theorem Blank.follows_append {space tail : List Char} (h : Blank space) (ht : Follows tail) :
    Follows (space ++ tail) := by
  cases space with
  | nil => exact ht
  | cons c space => exact follows_cons (Or.inl (h c (List.mem_cons_self ..)))

/-- Behind a value, a text that goes on with one of the signs follows it. -/
theorem follows_of_skipSpace {cs front : List Char} {c : Char} (h : skipSpace cs = c :: front)
    (hc : c = ',' ∨ c = ']' ∨ c = '\x7d') : Follows cs := by
  obtain ⟨space, rfl, hspace⟩ := exists_space h
  exact hspace.follows_append (follows_cons (Or.inr hc))

/-- No character behind a value belongs to a number. -/
theorem Follows.not_number {tail : List Char} (h : Follows tail) :
    ∀ c ∈ tail.head?, c.isDigit = false ∧ c ≠ '.' ∧ c ≠ 'e' ∧ c ≠ 'E' := by
  intro c hc
  rcases h c hc with hspace | rfl | rfl | rfl
  · simp only [isSpace, Bool.or_eq_true, beq_iff_eq] at hspace
    rcases hspace with ((rfl | rfl) | rfl) | rfl <;> decide
  all_goals decide

/-! ## Words and strings -/

theorem word_front {ws cs rest : List Char} (h : word ws cs = .ok rest) :
    cs = ws ++ rest := by
  induction ws generalizing cs with
  | nil => exact Except.ok.inj h
  | cons w ws ih =>
    cases cs with
    | nil => cases h
    | cons c cs =>
      rw [word] at h
      split at h
      · rename_i hc
        rw [ih h, hc, List.cons_append]
      · cases h

theorem word_append (ws tail : List Char) : word ws (ws ++ tail) = .ok tail := by
  induction ws with
  | nil => rfl
  | cons w ws ih => rw [List.cons_append, word, if_pos rfl, ih]

section Strings

variable {c e : Char} {n m : Nat} {cs rest : List Char}

theorem stringFrom_escaped (hu : e ≠ 'u') (h : escapedChar? e = some c) (sofar cs : List Char) :
    stringFrom sofar ('\\' :: e :: cs) = stringFrom (c :: sofar) cs := by
  simp [stringFrom, hu, h]

theorem stringFrom_plain (hquote : c ≠ '"') (hslash : c ≠ '\\') (hcontrol : ¬ c < ' ')
    (sofar cs : List Char) : stringFrom sofar (c :: cs) = stringFrom (c :: sofar) cs := by
  simp [stringFrom, hslash, hcontrol]

theorem skipString_escaped (hu : e ≠ 'u') (h : escapedChar? e = some c) (cs : List Char) :
    skipString ('\\' :: e :: cs) = skipString cs := by
  simp [skipString, hu, h]

theorem skipString_plain (hquote : c ≠ '"') (hslash : c ≠ '\\') (hcontrol : ¬ c < ' ')
    (cs : List Char) : skipString (c :: cs) = skipString cs := by
  simp [skipString, hslash, hcontrol]

/-- A backslash that is neither the last character nor in front of another one is none. -/
theorem ne_backslash (hlast : c = '\\' → cs = [] → False)
    (hescape : ∀ (e : Char) (behind : List Char), c = '\\' → cs = e :: behind → False) :
    c ≠ '\\' := by
  intro hc
  cases cs with
  | nil => exact hlast hc rfl
  | cons e behind => exact hescape e behind hc rfl

/-- A string ends by itself, so anything may stand behind it. -/
theorem stringFrom_front {sofar chars : List Char} (h : stringFrom sofar cs = .ok (chars, rest)) :
    ∃ front, cs = front ++ rest ∧ ∀ tail, stringFrom sofar (front ++ tail) = .ok (chars, tail) := by
  fun_induction stringFrom sofar cs with
  | case2 sofar cs =>
    obtain ⟨rfl, rfl⟩ := ok_pair_inj.mp h
    exact ⟨['"'], rfl, fun tail => rfl⟩
  | case8 sofar a b c d n hunit hsecond hfirst a' b' c' d' cs m hunit' hpair ih =>
    -- both halves of a pair belong to the front
    obtain ⟨front, rfl, hfront⟩ := ih h
    refine ⟨['\\', 'u', a, b, c, d, '\\', 'u', a', b', c', d'] ++ front, rfl, ?_⟩
    intro tail
    simp only [List.cons_append, List.nil_append, stringFrom, hunit, hsecond, hfirst, hunit', hpair,
      hfront]
    rfl
  | case12 sofar a b c d cs n hunit hsecond hfirst ih =>
    obtain ⟨front, rfl, hfront⟩ := ih h
    refine ⟨['\\', 'u', a, b, c, d] ++ front, rfl, ?_⟩
    intro tail
    simp only [List.cons_append, List.nil_append, stringFrom, hunit, hsecond, hfirst, hfront]
    rfl
  | case15 sofar e cs _ hu c hescaped ih =>
    obtain ⟨front, rfl, hfront⟩ := ih h
    refine ⟨['\\', e] ++ front, rfl, ?_⟩
    intro tail
    exact (stringFrom_escaped hu hescaped _ _).trans (hfront tail)
  | case18 sofar c cs hquote _ _ hlast hescape hcontrol ih =>
    obtain ⟨front, rfl, hfront⟩ := ih h
    refine ⟨[c] ++ front, rfl, ?_⟩
    intro tail
    exact (stringFrom_plain hquote (ne_backslash hlast hescape) hcontrol _ _).trans (hfront tail)
  | _ => cases h

theorem scanString_front {s : String} (h : scanString cs = .ok (s, rest)) :
    ∃ front, cs = front ++ rest ∧ ∀ tail, scanString (front ++ tail) = .ok (s, tail) := by
  obtain ⟨⟨chars, _⟩, hread, h⟩ := bind_eq_ok.mp h
  obtain ⟨rfl, rfl⟩ := ok_pair_inj.mp h
  obtain ⟨front, rfl, hfront⟩ := stringFrom_front hread
  refine ⟨front, rfl, ?_⟩
  intro tail
  rw [scanString, hfront, ok_bind]
  rfl

theorem skipString_front (h : skipString cs = .ok rest) :
    ∃ front, cs = front ++ rest ∧ ∀ tail, skipString (front ++ tail) = .ok tail := by
  fun_induction skipString cs with
  | case2 cs =>
    obtain rfl := Except.ok.inj h
    exact ⟨['"'], rfl, fun tail => rfl⟩
  | case4 a b c d cs n hunit ih =>
    obtain ⟨front, rfl, hfront⟩ := ih h
    refine ⟨['\\', 'u', a, b, c, d] ++ front, rfl, ?_⟩
    intro tail
    simp only [List.cons_append, List.nil_append, skipString, hunit, hfront]
  | case7 e cs _ hu c hescaped ih =>
    obtain ⟨front, rfl, hfront⟩ := ih h
    refine ⟨['\\', e] ++ front, rfl, ?_⟩
    intro tail
    exact (skipString_escaped hu hescaped _).trans (hfront tail)
  | case10 c cs hquote _ _ hlast hescape hcontrol ih =>
    obtain ⟨front, rfl, hfront⟩ := ih h
    refine ⟨[c] ++ front, rfl, ?_⟩
    intro tail
    exact (skipString_plain hquote (ne_backslash hlast hescape) hcontrol _).trans (hfront tail)
  | _ => cases h

end Strings

/-! ## Numbers -/

section Numbers

variable {cs rest : List Char}

/-- A run of digits ends where another character follows. -/
theorem digits_front (cs : List Char) : cs = (digits cs).1 ++ (digits cs).2 ∧
    ∀ tail : List Char, (∀ c ∈ tail.head?, c.isDigit = false) →
      digits ((digits cs).1 ++ tail) = ((digits cs).1, tail) := by
  refine ⟨List.takeWhile_append_dropWhile.symm, ?_⟩
  intro tail ht
  have hall : digits (digits cs).1 = ((digits cs).1, []) :=
    digits_of_all fun d hd => List.mem_takeWhile_imp hd
  rw [digits_append ht, hall, List.nil_append]

theorem someDigits_front {ds : List Char} (h : someDigits cs = .ok (ds, rest)) :
    cs = ds ++ rest ∧ ∀ tail : List Char, (∀ c ∈ tail.head?, c.isDigit = false) →
      someDigits (ds ++ tail) = .ok (ds, tail) := by
  obtain ⟨hsplit, htake⟩ := digits_front cs
  unfold someDigits at h
  split at h
  · cases h
  · cases h
  · rename_i hdigits
    obtain ⟨rfl, rfl⟩ := ok_pair_inj.mp h
    rw [hdigits] at hsplit htake
    refine ⟨hsplit, ?_⟩
    intro tail ht
    rw [someDigits, htake tail ht]

theorem head_of_someDigits {ds : List Char} (h : someDigits cs = .ok (ds, rest)) :
    ∃ d behind, ds = d :: behind ∧ d.isDigit = true := by
  unfold someDigits at h
  split at h
  · cases h
  · cases h
  · rename_i d behind _ hdigits
    obtain ⟨rfl, rfl⟩ := ok_pair_inj.mp h
    have hmem : d ∈ cs.takeWhile Char.isDigit := by
      rw [show cs.takeWhile Char.isDigit = d :: behind from congrArg Prod.fst hdigits]
      exact List.mem_cons_self ..
    exact ⟨d, behind, rfl, List.mem_takeWhile_imp hmem⟩

theorem wholePart_front {ds : List Char} (h : wholePart cs = .ok (ds, rest)) :
    cs = ds ++ rest ∧ ∀ tail : List Char, (∀ c ∈ tail.head?, c.isDigit = false) →
      wholePart (ds ++ tail) = .ok (ds, tail) := by
  have hzero : ∀ tail : List Char, (∀ c ∈ tail.head?, c.isDigit = false) →
      wholePart (['0'] ++ tail) = .ok (['0'], tail) := by
    intro tail ht
    cases tail with
    | nil => rfl
    | cons c tail => simp [wholePart, ht c rfl]
  unfold wholePart at h
  split at h
  · cases h
  · -- a zero stands alone
    split at h
    · split at h
      · cases h
      · obtain ⟨rfl, rfl⟩ := ok_pair_inj.mp h
        exact ⟨rfl, hzero⟩
    · obtain ⟨rfl, rfl⟩ := ok_pair_inj.mp h
      exact ⟨rfl, hzero⟩
  · rename_i c behind hne
    split at h
    · rename_i hc
      obtain ⟨hsplit, htake⟩ := digits_front (c :: behind)
      rw [Except.ok.inj h] at hsplit htake
      refine ⟨hsplit, ?_⟩
      intro tail ht
      -- the run of digits starts with the same character
      have hhead : ∃ ds', ds = c :: ds' := by
        have hds : (digits (c :: behind)).1 = ds := congrArg Prod.fst (Except.ok.inj h)
        exact ⟨_, hds.symm.trans (List.takeWhile_cons_of_pos hc)⟩
      obtain ⟨ds', rfl⟩ := hhead
      have htake := htake tail ht
      rw [List.cons_append] at htake ⊢
      rw [wholePart_of_ne_zero hne, if_pos hc, htake]
    · cases h

theorem fractionPart_front {fraction : Option (List Char)}
    (h : fractionPart cs = .ok (fraction, rest)) :
    ∃ front, cs = front ++ rest ∧ (∀ c ∈ front.head?, c = '.') ∧
      ∀ tail : List Char, (∀ c ∈ tail.head?, c.isDigit = false ∧ c ≠ '.') →
        fractionPart (front ++ tail) = .ok (fraction, tail) := by
  unfold fractionPart at h
  split at h
  · obtain ⟨⟨ds, _⟩, hdigits, h⟩ := bind_eq_ok.mp h
    obtain ⟨rfl, rfl⟩ := ok_pair_inj.mp h
    obtain ⟨rfl, hfront⟩ := someDigits_front hdigits
    refine ⟨'.' :: ds, rfl, fun c hc => (Option.some.inj hc).symm, ?_⟩
    intro tail ht
    have hbehind := hfront tail fun c hc => (ht c hc).1
    simp only [List.cons_append, fractionPart, hbehind, ok_bind]
    rfl
  · obtain ⟨rfl, rfl⟩ := ok_pair_inj.mp h
    refine ⟨[], rfl, fun c hc => absurd hc (Option.not_mem_none c), ?_⟩
    intro tail ht
    cases tail with
    | nil => rfl
    | cons c tail => simp [fractionPart, (ht c rfl).2]

theorem signedExponent_front {e : Int} (h : signedExponent cs = .ok (e, rest)) :
    ∃ front, cs = front ++ rest ∧
      ∀ tail : List Char, (∀ c ∈ tail.head?, c.isDigit = false) →
        signedExponent (front ++ tail) = .ok (e, tail) := by
  unfold signedExponent at h
  split at h
  · obtain ⟨⟨ds, _⟩, hdigits, h⟩ := bind_eq_ok.mp h
    obtain ⟨rfl, rfl⟩ := ok_pair_inj.mp h
    obtain ⟨rfl, hfront⟩ := someDigits_front hdigits
    refine ⟨'+' :: ds, rfl, ?_⟩
    intro tail ht
    simp only [List.cons_append, signedExponent, hfront tail ht, ok_bind]
    rfl
  · obtain ⟨⟨ds, _⟩, hdigits, h⟩ := bind_eq_ok.mp h
    obtain ⟨rfl, rfl⟩ := ok_pair_inj.mp h
    obtain ⟨rfl, hfront⟩ := someDigits_front hdigits
    refine ⟨'-' :: ds, rfl, ?_⟩
    intro tail ht
    simp only [List.cons_append, signedExponent, hfront tail ht, ok_bind]
    rfl
  · obtain ⟨⟨ds, _⟩, hdigits, h⟩ := bind_eq_ok.mp h
    obtain ⟨rfl, rfl⟩ := ok_pair_inj.mp h
    obtain ⟨d, behind, rfl, hd⟩ := head_of_someDigits hdigits
    obtain ⟨rfl, hfront⟩ := someDigits_front hdigits
    refine ⟨d :: behind, rfl, ?_⟩
    intro tail ht
    -- a digit is no sign
    have hplus : d ≠ '+' := by
      rintro rfl
      exact absurd hd (by decide)
    have hminus : d ≠ '-' := by
      rintro rfl
      exact absurd hd (by decide)
    have hread := hfront tail ht
    rw [List.cons_append] at hread ⊢
    rw [signedExponent.eq_3 _ (by simpa using hplus) (by simpa using hminus), hread]
    rfl

theorem exponentPart_front {exponent : Option Int} (h : exponentPart cs = .ok (exponent, rest)) :
    ∃ front, cs = front ++ rest ∧ (∀ c ∈ front.head?, c = 'e' ∨ c = 'E') ∧
      ∀ tail : List Char, (∀ c ∈ tail.head?, c.isDigit = false ∧ c ≠ 'e' ∧ c ≠ 'E') →
        exponentPart (front ++ tail) = .ok (exponent, tail) := by
  unfold exponentPart at h
  split at h
  · obtain ⟨⟨e, _⟩, hsigned, h⟩ := bind_eq_ok.mp h
    obtain ⟨rfl, rfl⟩ := ok_pair_inj.mp h
    obtain ⟨front, rfl, hfront⟩ := signedExponent_front hsigned
    refine ⟨'e' :: front, rfl, fun c hc => Or.inl (Option.some.inj hc).symm, ?_⟩
    intro tail ht
    have hbehind := hfront tail fun c hc => (ht c hc).1
    simp only [List.cons_append, exponentPart, hbehind, ok_bind]
    rfl
  · obtain ⟨⟨e, _⟩, hsigned, h⟩ := bind_eq_ok.mp h
    obtain ⟨rfl, rfl⟩ := ok_pair_inj.mp h
    obtain ⟨front, rfl, hfront⟩ := signedExponent_front hsigned
    refine ⟨'E' :: front, rfl, fun c hc => Or.inr (Option.some.inj hc).symm, ?_⟩
    intro tail ht
    have hbehind := hfront tail fun c hc => (ht c hc).1
    simp only [List.cons_append, exponentPart, hbehind, ok_bind]
    rfl
  · obtain ⟨rfl, rfl⟩ := ok_pair_inj.mp h
    refine ⟨[], rfl, fun c hc => absurd hc (Option.not_mem_none c), ?_⟩
    intro tail ht
    cases tail with
    | nil => rfl
    | cons c tail => simp [exponentPart, (ht c rfl).2]

/-- What stands behind a part of a number, if the part in between may be missing. -/
theorem forall_head_append {P Q : Char → Prop} {front tail : List Char}
    (hfront : ∀ c ∈ front.head?, P c) (ht : ∀ c ∈ tail.head?, Q c) (hPQ : ∀ c, P c → Q c) :
    ∀ c ∈ (front ++ tail).head?, Q c := by
  cases front with
  | nil => exact ht
  | cons d front => exact fun c hc => hPQ c (hfront c hc)

theorem literal_front {negative : Bool} {l : Literal} (h : literal negative cs = .ok (l, rest)) :
    ∃ front, cs = front ++ rest ∧
      ∀ tail, Follows tail → literal negative (front ++ tail) = .ok (l, tail) := by
  obtain ⟨⟨whole, _⟩, hwhole, h⟩ := bind_eq_ok.mp h
  obtain ⟨⟨fraction, _⟩, hfraction, h⟩ := bind_eq_ok.mp h
  obtain ⟨⟨exponent, _⟩, hexponent, h⟩ := bind_eq_ok.mp h
  obtain ⟨rfl, rfl⟩ := ok_pair_inj.mp h
  obtain ⟨rfl, hwhole'⟩ := wholePart_front hwhole
  obtain ⟨point, rfl, hpoint, hfraction'⟩ := fractionPart_front hfraction
  obtain ⟨power, rfl, hpower, hexponent'⟩ := exponentPart_front hexponent
  refine ⟨whole ++ (point ++ power), by simp only [List.append_assoc], ?_⟩
  intro tail ht
  have hnumber := ht.not_number
  -- behind each part stands the next one, or what follows the number
  have hbehindFraction : ∀ c ∈ (power ++ tail).head?, c.isDigit = false ∧ c ≠ '.' :=
    forall_head_append hpower (fun c hc => ⟨(hnumber c hc).1, (hnumber c hc).2.1⟩)
      (by rintro c (rfl | rfl) <;> decide)
  have hbehindWhole : ∀ c ∈ (point ++ (power ++ tail)).head?, c.isDigit = false :=
    forall_head_append hpoint (fun c hc => (hbehindFraction c hc).1) (by rintro c rfl; decide)
  have hbehindExponent : ∀ c ∈ tail.head?, c.isDigit = false ∧ c ≠ 'e' ∧ c ≠ 'E' :=
    fun c hc => ⟨(hnumber c hc).1, (hnumber c hc).2.2⟩
  simp only [literal, List.append_assoc, hwhole' _ hbehindWhole, hfraction' _ hbehindFraction,
    hexponent' _ hbehindExponent, ok_bind]
  rfl

theorem scanNumber_front {negative : Bool} {n : Number}
    (h : scanNumber negative cs = .ok (n, rest)) :
    ∃ front, cs = front ++ rest ∧
      ∀ tail, Follows tail → scanNumber negative (front ++ tail) = .ok (n, tail) := by
  obtain ⟨⟨l, _⟩, hliteral, h⟩ := bind_eq_ok.mp h
  obtain ⟨_, hnumber, h⟩ := bind_eq_ok.mp h
  obtain ⟨rfl, rfl⟩ := ok_pair_inj.mp h
  obtain ⟨front, rfl, hfront⟩ := literal_front hliteral
  refine ⟨front, rfl, ?_⟩
  intro tail ht
  simp only [scanNumber, hfront tail ht, ok_bind, hnumber]
  rfl

/-- The first character of a number belongs to its front. -/
theorem scanNumber_front_cons {negative : Bool} {n : Number} {c : Char}
    (h : scanNumber negative (c :: cs) = .ok (n, rest)) :
    ∃ front, cs = front ++ rest ∧
      ∀ tail, Follows tail → scanNumber negative (c :: (front ++ tail)) = .ok (n, tail) := by
  obtain ⟨front, heq, hfront⟩ := scanNumber_front h
  cases front with
  | nil =>
    -- no number is read from nothing
    have hnil := hfront [] blank_nil.follows
    cases hnil
  | cons d front =>
    obtain ⟨rfl, htext⟩ := List.cons.inj heq
    exact ⟨front, htext, hfront⟩

theorem skipNumber_front (h : skipNumber cs = .ok rest) :
    ∃ front, cs = front ++ rest ∧ ∀ tail, Follows tail → skipNumber (front ++ tail) = .ok tail := by
  unfold skipNumber at h
  split at h
  · rename_i hliteral
    obtain rfl := Except.ok.inj h
    obtain ⟨front, rfl, hfront⟩ := literal_front hliteral
    refine ⟨front, rfl, ?_⟩
    intro tail ht
    rw [skipNumber, hfront tail ht]
  · cases h

end Numbers

/-! ## Values that are passed over -/

section Skipping

variable {cs rest : List Char}

theorem skipKey_front (h : skipKey cs = .ok rest) :
    ∃ front, cs = front ++ rest ∧ ∀ tail, skipKey (front ++ tail) = .ok tail := by
  unfold skipKey at h
  split at h
  · cases h
  · rename_i hquote
    obtain ⟨behind, hstring, hcolon⟩ := bind_eq_ok.mp h
    obtain ⟨before, rfl, hbefore⟩ := exists_space hquote
    obtain ⟨name, rfl, hname⟩ := skipString_front hstring
    obtain ⟨gap, rfl, hgap⟩ := exists_space (colon_eq_ok.mp hcolon)
    refine ⟨before ++ '"' :: (name ++ (gap ++ [':'])), by simp, ?_⟩
    intro tail
    have hspace := skipSpace_token hbefore (c := '"') (by decide) (name ++ (gap ++ ':' :: tail))
    have hcolon := skipSpace_token hgap (c := ':') (by decide) tail
    simp only [List.append_assoc, List.cons_append, List.nil_append, skipKey, hspace, hname,
      ok_bind, colon_eq_ok.mpr hcolon]
  · cases h

/-- The text is one of a value that is passed over, with any fuel that its front allows. -/
def SkippedFront (cs rest : List Char) : Prop :=
  ∃ front, cs = front ++ rest ∧ ∀ tail fuel, Follows tail → front.length ≤ fuel →
    skipNested fuel (front ++ tail) = .ok tail

theorem follows_of_skipItems {skip : List Char → Except Problem (List Char)} {fuel : Nat}
    (h : skipItems skip fuel cs = .ok rest) : Follows cs := by
  cases fuel with
  | zero => cases h
  | succ fuel =>
    unfold skipItems at h
    split at h
    · cases h
    · rename_i hclosed
      exact follows_of_skipSpace hclosed (by decide)
    · rename_i hcomma
      exact follows_of_skipSpace hcomma (by decide)
    · cases h

theorem follows_of_skipMembers {skip : List Char → Except Problem (List Char)} {fuel : Nat}
    (h : skipMembers skip fuel cs = .ok rest) : Follows cs := by
  cases fuel with
  | zero => cases h
  | succ fuel =>
    unfold skipMembers at h
    split at h
    · cases h
    · rename_i hclosed
      exact follows_of_skipSpace hclosed (by decide)
    · rename_i hcomma
      exact follows_of_skipSpace hcomma (by decide)
    · cases h

theorem skipItems_front {inner fuel : Nat}
    (hinner : ∀ {cs rest}, skipNested inner cs = .ok rest → SkippedFront cs rest)
    (h : skipItems (skipNested inner) fuel cs = .ok rest) :
    ∃ front, cs = front ++ rest ∧ ∀ tail more fuel, front.length ≤ more → front.length ≤ fuel →
      skipItems (skipNested more) fuel (front ++ tail) = .ok tail := by
  induction fuel generalizing cs with
  | zero => cases h
  | succ fuel ih =>
    unfold skipItems at h
    split at h
    · cases h
    · rename_i hclosed
      obtain rfl := Except.ok.inj h
      obtain ⟨space, rfl, hspace⟩ := exists_space hclosed
      refine ⟨space ++ [']'], by simp, ?_⟩
      intro tail more fuel' _ hfuel
      have hskip := skipSpace_token hspace (c := ']') (by decide) tail
      cases fuel' with
      | zero => simp at hfuel
      | succ fuel' => simp only [List.append_assoc, List.singleton_append, skipItems, hskip]
    · rename_i hcomma
      obtain ⟨behind, hskip, hrest⟩ := bind_eq_ok.mp h
      obtain ⟨space, rfl, hspace⟩ := exists_space hcomma
      obtain ⟨item, rfl, hitem⟩ := hinner hskip
      obtain ⟨others, rfl, hothers⟩ := ih hrest
      refine ⟨space ++ ',' :: (item ++ others), by simp, ?_⟩
      intro tail more fuel' hmore hfuel
      have hcomma := skipSpace_token hspace (c := ',') (by decide) (item ++ (others ++ tail))
      simp only [List.length_append, List.length_cons] at hmore hfuel
      cases fuel' with
      | zero => omega
      | succ fuel' =>
        have hbehind := hothers tail more fuel' (by omega) (by omega)
        -- behind an item stands a comma or the bracket
        have hnext := hitem (others ++ tail) more (follows_of_skipItems hbehind) (by omega)
        simp only [List.append_assoc, List.cons_append, skipItems, hcomma, hnext, ok_bind, hbehind]
    · cases h

theorem skipMembers_front {inner fuel : Nat}
    (hinner : ∀ {cs rest}, skipNested inner cs = .ok rest → SkippedFront cs rest)
    (h : skipMembers (skipNested inner) fuel cs = .ok rest) :
    ∃ front, cs = front ++ rest ∧ ∀ tail more fuel, front.length ≤ more → front.length ≤ fuel →
      skipMembers (skipNested more) fuel (front ++ tail) = .ok tail := by
  induction fuel generalizing cs with
  | zero => cases h
  | succ fuel ih =>
    unfold skipMembers at h
    split at h
    · cases h
    · rename_i hclosed
      obtain rfl := Except.ok.inj h
      obtain ⟨space, rfl, hspace⟩ := exists_space hclosed
      refine ⟨space ++ ['\x7d'], by simp, ?_⟩
      intro tail more fuel' _ hfuel
      have hskip := skipSpace_token hspace (c := '\x7d') (by decide) tail
      cases fuel' with
      | zero => simp at hfuel
      | succ fuel' => simp only [List.append_assoc, List.singleton_append, skipMembers, hskip]
    · rename_i hcomma
      obtain ⟨text, hskipKey, hmore⟩ := bind_eq_ok.mp h
      obtain ⟨behind, hskip, hrest⟩ := bind_eq_ok.mp hmore
      obtain ⟨space, rfl, hspace⟩ := exists_space hcomma
      obtain ⟨key, rfl, hkey⟩ := skipKey_front hskipKey
      obtain ⟨value, rfl, hvalue⟩ := hinner hskip
      obtain ⟨others, rfl, hothers⟩ := ih hrest
      refine ⟨space ++ ',' :: (key ++ (value ++ others)), by simp, ?_⟩
      intro tail more fuel' hmore hfuel
      have hcomma := skipSpace_token hspace (c := ',') (by decide)
        (key ++ (value ++ (others ++ tail)))
      simp only [List.length_append, List.length_cons] at hmore hfuel
      cases fuel' with
      | zero => omega
      | succ fuel' =>
        have hbehind := hothers tail more fuel' (by omega) (by omega)
        have hnext := hvalue (others ++ tail) more (follows_of_skipMembers hbehind) (by omega)
        simp only [List.append_assoc, List.cons_append, skipMembers, hcomma, hkey, ok_bind, hnext,
          hbehind]
    · cases h

/-- A value is passed over like its front if what stands behind its first character is. -/
theorem SkippedFront.of_first {space front rest : List Char} {c : Char} (hspace : Blank space)
    (hc : isSpace c = false)
    (hskip : ∀ tail fuel, Follows tail → front.length ≤ fuel →
      skipNested (fuel + 1) (c :: (front ++ tail)) = .ok tail) :
    SkippedFront (space ++ c :: (front ++ rest)) rest := by
  refine ⟨space ++ c :: front, by simp, ?_⟩
  intro tail fuel ht hfuel
  simp only [List.length_append, List.length_cons] at hfuel
  cases fuel with
  | zero => omega
  | succ fuel =>
    rw [← skipNested_skipSpace, List.append_assoc, List.cons_append, skipSpace_token hspace hc]
    exact hskip tail fuel ht (by omega)

/-- The front of a value that is passed over is not empty, and starts like the value. -/
theorem SkippedFront.head {cs rest behind : List Char} {c : Char} (h : SkippedFront cs rest)
    (hcs : cs = c :: behind) : ∃ front, cs = c :: (front ++ rest) ∧
      ∀ tail fuel, Follows tail → front.length + 1 ≤ fuel →
        skipNested fuel (c :: (front ++ tail)) = .ok tail := by
  obtain ⟨front, rfl, hskip⟩ := h
  cases front with
  | nil =>
    -- nothing is passed over as nothing
    have hnil := hskip [] 0 blank_nil.follows (Nat.zero_le _)
    cases hnil
  | cons d front =>
    obtain ⟨rfl, -⟩ := List.cons.inj hcs
    exact ⟨front, rfl, hskip⟩

theorem skipNested_bracket (fuel : Nat) {space : List Char} (hspace : Blank space) {c : Char}
    (hc : isSpace c = false) (hopen : c ≠ ']') (item : List Char) :
    skipNested (fuel + 1) ('[' :: (space ++ c :: item)) = (do
      let rest ← skipNested fuel (c :: item)
      skipItems (skipNested fuel) rest.length rest) := by
  rw [skipNested, skipSpace_cons (by decide)]
  simp only [skipSpace_token hspace hc]
  split
  · rename_i heq
    cases heq
  · rename_i heq
    exact absurd (List.cons.inj heq).1 hopen
  · rfl

theorem skipNested_brackets (fuel : Nat) {space : List Char} (hspace : Blank space)
    (tail : List Char) : skipNested (fuel + 1) ('[' :: (space ++ ']' :: tail)) = .ok tail := by
  rw [skipNested, skipSpace_cons (by decide)]
  simp only [skipSpace_token hspace (c := ']') (by decide)]

theorem skipNested_brace (fuel : Nat) {space : List Char} (hspace : Blank space) {c : Char}
    (hc : isSpace c = false) (hopen : c ≠ '\x7d') (key : List Char) :
    skipNested (fuel + 1) ('\x7b' :: (space ++ c :: key)) = (do
      let rest ← skipKey (c :: key)
      let rest ← skipNested fuel rest
      skipMembers (skipNested fuel) rest.length rest) := by
  rw [skipNested, skipSpace_cons (by decide)]
  simp only [skipSpace_token hspace hc]
  split
  · rename_i heq
    cases heq
  · rename_i heq
    exact absurd (List.cons.inj heq).1 hopen
  · rfl

theorem skipNested_braces (fuel : Nat) {space : List Char} (hspace : Blank space)
    (tail : List Char) :
    skipNested (fuel + 1) ('\x7b' :: (space ++ '\x7d' :: tail)) = .ok tail := by
  rw [skipNested, skipSpace_cons (by decide)]
  simp only [skipSpace_token hspace (c := '\x7d') (by decide)]

theorem isSpace_of_skipSpace {cs front : List Char} {c : Char} (h : skipSpace cs = c :: front) :
    isSpace c = false := by
  have hne : cs.dropWhile isSpace ≠ [] := by
    rw [show cs.dropWhile isSpace = c :: front from h]
    exact List.cons_ne_nil c front
  have hhead := List.head_dropWhile_not isSpace hne
  simpa only [show cs.dropWhile isSpace = c :: front from h, List.head_cons] using hhead

section Containers

variable {fuel : Nat} {space front : List Char} (hspace : Blank space)
  (hinner : ∀ {cs rest}, skipNested fuel cs = .ok rest → SkippedFront cs rest)
include hspace hinner

theorem skippedFront_list (h : skipNested (fuel + 1) ('[' :: front) = .ok rest) :
    SkippedFront (space ++ '[' :: front) rest := by
  cases hfront : skipSpace front with
  | nil =>
    rw [skipNested, skipSpace_cons (by decide)] at h
    simp only [hfront] at h
    cases h
  | cons c item =>
    have hc := isSpace_of_skipSpace hfront
    obtain ⟨gap, rfl, hgap⟩ := exists_space hfront
    by_cases hclosed : c = ']'
    · subst hclosed
      rw [skipNested_brackets fuel hgap] at h
      obtain rfl := Except.ok.inj h
      rw [List.append_cons gap]
      refine .of_first hspace (by decide) ?_
      intro tail fuel' _ _
      rw [← List.append_cons]
      exact skipNested_brackets fuel' hgap tail
    · rw [skipNested_bracket fuel hgap hc hclosed] at h
      obtain ⟨behind, hskip, hrest⟩ := bind_eq_ok.mp h
      obtain ⟨item, heq, hitem⟩ := (hinner hskip).head rfl
      obtain ⟨others, rfl, hothers⟩ := skipItems_front hinner hrest
      rw [heq,
        show gap ++ c :: (item ++ (others ++ rest)) = gap ++ c :: (item ++ others) ++ rest by simp]
      refine .of_first hspace (by decide) ?_
      intro tail fuel' ht hfuel
      simp only [List.length_append, List.length_cons] at hfuel
      have hbehind := hothers tail fuel' (others ++ tail).length (by omega) (by simp)
      have hnext := hitem (others ++ tail) fuel' (follows_of_skipItems hbehind) (by omega)
      rw [List.append_assoc, List.cons_append, List.append_assoc,
        skipNested_bracket fuel' hgap hc hclosed, hnext, ok_bind]
      exact hbehind

theorem skippedFront_object (h : skipNested (fuel + 1) ('\x7b' :: front) = .ok rest) :
    SkippedFront (space ++ '\x7b' :: front) rest := by
  cases hfront : skipSpace front with
  | nil =>
    rw [skipNested, skipSpace_cons (by decide)] at h
    simp only [hfront] at h
    cases h
  | cons c key =>
    have hc := isSpace_of_skipSpace hfront
    obtain ⟨gap, rfl, hgap⟩ := exists_space hfront
    by_cases hclosed : c = '\x7d'
    · subst hclosed
      rw [skipNested_braces fuel hgap] at h
      obtain rfl := Except.ok.inj h
      rw [List.append_cons gap]
      refine .of_first hspace (by decide) ?_
      intro tail fuel' _ _
      rw [← List.append_cons]
      exact skipNested_braces fuel' hgap tail
    · rw [skipNested_brace fuel hgap hc hclosed] at h
      obtain ⟨text, hskipKey, hmore⟩ := bind_eq_ok.mp h
      obtain ⟨behind, hskip, hrest⟩ := bind_eq_ok.mp hmore
      obtain ⟨label, heq, hkey⟩ := skipKey_front hskipKey
      obtain ⟨value, rfl, hvalue⟩ := hinner hskip
      obtain ⟨others, rfl, hothers⟩ := skipMembers_front hinner hrest
      cases label with
      | nil =>
        have hnil := hkey []
        cases hnil
      | cons d label =>
        obtain ⟨rfl, htext⟩ := List.cons.inj heq
        obtain rfl : key = label ++ (value ++ (others ++ rest)) := htext
        rw [show gap ++ c :: (label ++ (value ++ (others ++ rest))) =
          gap ++ c :: (label ++ (value ++ others)) ++ rest by simp]
        refine .of_first hspace (by decide) ?_
        intro tail fuel' ht hfuel
        simp only [List.length_append, List.length_cons] at hfuel
        have hbehind := hothers tail fuel' (others ++ tail).length (by omega) (by simp)
        have hnext := hvalue (others ++ tail) fuel' (follows_of_skipMembers hbehind) (by omega)
        have hlabel := hkey (value ++ (others ++ tail))
        rw [List.cons_append] at hlabel
        simp only [List.append_assoc, List.cons_append,
          skipNested_brace fuel' hgap hc hclosed, hlabel, ok_bind, hnext]
        exact hbehind

end Containers

theorem skipNested_digit (fuel : Nat) {c : Char} (hc : c.isDigit = true) (cs : List Char) :
    skipNested (fuel + 1) (c :: cs) = skipNumber (c :: cs) := by
  rw [skipNested, skipSpace_cons (not_isSpace_of_isDigit hc)]
  split <;> rename_i heq
  · cases heq
  all_goals
    obtain ⟨rfl, rfl⟩ := List.cons.inj heq
    first
      | exact absurd hc (by decide)
      | exact if_pos hc

theorem skipNested_front {fuel : Nat} (h : skipNested fuel cs = .ok rest) :
    SkippedFront cs rest := by
  induction fuel generalizing cs rest with
  | zero => cases h
  | succ fuel ih =>
    unfold skipNested at h
    split at h
    · cases h
    · rename_i hfront
      obtain ⟨space, rfl, hspace⟩ := exists_space hfront
      obtain rfl := word_front h
      exact .of_first hspace (by decide) fun tail fuel _ _ => word_append _ tail
    · rename_i hfront
      obtain ⟨space, rfl, hspace⟩ := exists_space hfront
      obtain rfl := word_front h
      exact .of_first hspace (by decide) fun tail fuel _ _ => word_append _ tail
    · rename_i hfront
      obtain ⟨space, rfl, hspace⟩ := exists_space hfront
      obtain rfl := word_front h
      exact .of_first hspace (by decide) fun tail fuel _ _ => word_append _ tail
    · rename_i hfront
      obtain ⟨space, rfl, hspace⟩ := exists_space hfront
      obtain ⟨number, rfl, hnumber⟩ := skipNumber_front h
      exact .of_first hspace (by decide) fun tail fuel ht _ => hnumber tail ht
    · rename_i hfront
      obtain ⟨space, rfl, hspace⟩ := exists_space hfront
      obtain ⟨string, rfl, hstring⟩ := skipString_front h
      exact .of_first hspace (by decide) fun tail fuel _ _ => hstring tail
    · rename_i hfront
      obtain ⟨space, rfl, hspace⟩ := exists_space hfront
      exact skippedFront_list hspace ih h
    · rename_i hfront
      obtain ⟨space, rfl, hspace⟩ := exists_space hfront
      exact skippedFront_object hspace ih h
    · rename_i hfront
      split at h
      · rename_i hc
        obtain ⟨space, rfl, hspace⟩ := exists_space hfront
        obtain ⟨number, heq, hnumber⟩ := skipNumber_front h
        cases number with
        | nil =>
          have hnil := hnumber [] blank_nil.follows
          cases hnil
        | cons d number =>
          obtain ⟨rfl, rfl⟩ := List.cons.inj heq
          refine .of_first hspace (not_isSpace_of_isDigit hc) ?_
          intro tail fuel ht _
          rw [skipNested_digit fuel hc]
          exact hnumber tail ht
      · cases h

/-- What is passed over is passed over wherever it stands. -/
theorem skipValue_front (h : skipValue cs = .ok rest) :
    ∃ front, cs = front ++ rest ∧ ∀ tail, Follows tail → skipValue (front ++ tail) = .ok tail := by
  obtain ⟨front, rfl, hfront⟩ := skipNested_front h
  refine ⟨front, rfl, ?_⟩
  intro tail ht
  apply hfront tail _ ht
  rw [List.length_append]
  omega

end Skipping

end RecipeClient.Json
