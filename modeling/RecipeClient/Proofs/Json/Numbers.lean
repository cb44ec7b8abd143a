import RecipeClient.Proofs.Json.Tokens

/-!
# Written numbers are read back

What a number is read as does not depend on what stands behind it. The digits of an integer are
read as the integer; the text of a double consists of characters of numbers, so that it is told
apart from values of all other kinds.
-/

namespace RecipeClient.Json

open Double (decimalDigits exponential magnitudeText positional)

/-! ## What stands behind a number -/

theorem not_isSpace_of_isDigit {c : Char} (h : c.isDigit = true) : isSpace c = false := by
  simp only [isSpace, Bool.or_eq_false_iff, beq_eq_false_iff_ne]
  refine ⟨⟨⟨?_, ?_⟩, ?_⟩, ?_⟩ <;> rintro rfl <;> exact absurd h (by decide)

theorem digits_append {tail : List Char} (h : ∀ c ∈ tail.head?, c.isDigit = false)
    (cs : List Char) : digits (cs ++ tail) = ((digits cs).1, (digits cs).2 ++ tail) := by
  induction cs with
  | nil =>
    -- the run of digits ends with the text, and the tail starts with none
    cases tail with
    | nil => rfl
    | cons c tail => simp [digits, h c rfl]
  | cons c cs ih =>
    simp only [digits, List.cons_append, Prod.mk.injEq] at ih ⊢
    cases hc : c.isDigit with
    | true => simp [hc, ih.1, ih.2]
    | false => simp [hc]

theorem digits_of_all {ds : List Char} (h : ∀ d ∈ ds, d.isDigit = true) :
    digits ds = (ds, []) := by
  induction ds with
  | nil => rfl
  | cons d ds ih =>
    have hrest := ih fun e he => h e (List.mem_cons_of_mem _ he)
    simp only [digits, Prod.mk.injEq] at hrest ⊢
    simp [h d (List.mem_cons_self ..), hrest.1, hrest.2]

/-- A number that does not start with a zero starts with all of its digits. -/
theorem wholePart_of_ne_zero {c : Char} (h : c ≠ '0') (cs : List Char) :
    wholePart (c :: cs) =
      if c.isDigit then .ok (digits (c :: cs)) else .error (.malformed .invalidNumber) := by
  rw [wholePart]
  exact fun hc => h hc

section Behind

variable {cs rest tail : List Char}

/-- Reading something in place of what a step read goes through as the step does. -/
private theorem mapped_append {α β : Type} {step : Step α} {f : α → β} {b : β}
    (hstep : ∀ {a rest}, step cs = .ok (a, rest) → step (cs ++ tail) = .ok (a, rest ++ tail))
    (h : (do let (a, rest) ← step cs; return (f a, rest)) = Except.ok (b, rest)) :
    (do let (a, rest) ← step (cs ++ tail); return (f a, rest)) = Except.ok (b, rest ++ tail) := by
  obtain ⟨⟨a, behind⟩, ha, h⟩ := bind_eq_ok.mp h
  obtain ⟨rfl, rfl⟩ := ok_pair_inj.mp h
  rw [hstep ha]
  rfl

theorem someDigits_append {ds : List Char} (ht : Ends tail)
    (h : someDigits cs = .ok (ds, rest)) : someDigits (cs ++ tail) = .ok (ds, rest ++ tail) := by
  unfold someDigits at h ⊢
  rw [digits_append ht.not_isDigit]
  split at h
  · exact absurd h (by simp)
  · exact absurd h (by simp)
  · rename_i heq
    rw [heq]
    obtain ⟨rfl, rfl⟩ := ok_pair_inj.mp h
    rfl

theorem wholePart_append {ds : List Char} (ht : Ends tail) (h : wholePart cs = .ok (ds, rest)) :
    wholePart (cs ++ tail) = .ok (ds, rest ++ tail) := by
  cases cs with
  | nil => exact absurd h (by simp [wholePart])
  | cons c cs =>
    -- a zero in front ends the whole part; any other digit starts a run
    by_cases hzero : c = '0'
    · subst hzero
      cases cs with
      | nil =>
        simp only [wholePart, Except.ok.injEq, Prod.mk.injEq] at h
        obtain ⟨rfl, rfl⟩ := h
        -- the tail could only turn the zero into a leading one by starting with a digit
        cases tail with
        | nil => rfl
        | cons t tail => simp [wholePart, ht.not_isDigit t rfl]
      | cons d cs =>
        simp only [wholePart, List.cons_append] at h ⊢
        split at h
        · exact absurd h (by simp)
        · rename_i hd
          obtain ⟨rfl, rfl⟩ := ok_pair_inj.mp h
          simp [hd]
    · rw [wholePart_of_ne_zero hzero] at h
      rw [List.cons_append, wholePart_of_ne_zero hzero, ← List.cons_append,
        digits_append ht.not_isDigit]
      split at h
      · rename_i hdigit
        rw [if_pos hdigit, Except.ok.inj h]
      · exact absurd h (by simp)

theorem fractionPart_append {ds : Option (List Char)} (ht : Ends tail)
    (h : fractionPart cs = .ok (ds, rest)) :
    fractionPart (cs ++ tail) = .ok (ds, rest ++ tail) := by
  unfold fractionPart at h
  split at h
  · exact mapped_append (someDigits_append ht) h
  · rename_i hpoint
    obtain ⟨rfl, rfl⟩ := ok_pair_inj.mp h
    -- there was no point, and the tail brings none
    cases cs with
    | nil =>
      cases tail with
      | nil => rfl
      | cons c tail => rcases ht c rfl with rfl | rfl | rfl <;> rfl
    | cons c cs =>
      have hne : c ≠ '.' := fun hc => hpoint cs (hc ▸ rfl)
      simp [fractionPart, hne]

theorem signedExponent_append {e : Int} (ht : Ends tail)
    (h : signedExponent cs = .ok (e, rest)) :
    signedExponent (cs ++ tail) = .ok (e, rest ++ tail) := by
  unfold signedExponent at h
  split at h
  · exact mapped_append (f := fun ds => (digitsValue ds : Int)) (someDigits_append ht) h
  · exact mapped_append (f := fun ds => -(digitsValue ds : Int)) (someDigits_append ht) h
  · rename_i hplus hminus
    cases cs with
    | nil =>
      -- nothing is no exponent
      obtain ⟨_, hdigits, _⟩ := bind_eq_ok.mp h
      exact absurd hdigits (by simp [someDigits, digits])
    | cons c cs =>
      have hne : c ≠ '+' ∧ c ≠ '-' :=
        ⟨fun hc => hplus cs (hc ▸ rfl), fun hc => hminus cs (hc ▸ rfl)⟩
      rw [List.cons_append, signedExponent.eq_3 _ (by simpa using hne.1) (by simpa using hne.2)]
      exact mapped_append (f := fun ds => (digitsValue ds : Int)) (someDigits_append ht) h

theorem exponentPart_append {e : Option Int} (ht : Ends tail)
    (h : exponentPart cs = .ok (e, rest)) :
    exponentPart (cs ++ tail) = .ok (e, rest ++ tail) := by
  unfold exponentPart at h
  split at h
  · exact mapped_append (signedExponent_append ht) h
  · exact mapped_append (signedExponent_append ht) h
  · rename_i hsmall hlarge
    obtain ⟨rfl, rfl⟩ := ok_pair_inj.mp h
    -- there was no exponent, and the tail brings none
    cases cs with
    | nil =>
      cases tail with
      | nil => rfl
      | cons c tail => rcases ht c rfl with rfl | rfl | rfl <;> rfl
    | cons c cs =>
      have hne : c ≠ 'e' ∧ c ≠ 'E' :=
        ⟨fun hc => hsmall cs (hc ▸ rfl), fun hc => hlarge cs (hc ▸ rfl)⟩
      simp [exponentPart, hne.1, hne.2]

theorem literal_append {negative : Bool} {l : Literal} (ht : Ends tail)
    (h : literal negative cs = .ok (l, rest)) :
    literal negative (cs ++ tail) = .ok (l, rest ++ tail) := by
  obtain ⟨⟨whole, cs₁⟩, hwhole, h⟩ := bind_eq_ok.mp h
  obtain ⟨⟨fraction, cs₂⟩, hfraction, h⟩ := bind_eq_ok.mp h
  obtain ⟨⟨exponent, cs₃⟩, hexponent, h⟩ := bind_eq_ok.mp h
  obtain ⟨rfl, rfl⟩ := ok_pair_inj.mp h
  -- every part is read as before, each up to the same place
  simp only [literal, wholePart_append ht hwhole, fractionPart_append ht hfraction,
    exponentPart_append ht hexponent, ok_bind]
  rfl

/-- What a number is read as does not depend on what stands behind it. -/
theorem scanNumber_append {negative : Bool} {n : Number} (ht : Ends tail)
    (h : scanNumber negative cs = .ok (n, rest)) :
    scanNumber negative (cs ++ tail) = .ok (n, rest ++ tail) := by
  obtain ⟨⟨l, behind⟩, hliteral, h⟩ := bind_eq_ok.mp h
  obtain ⟨number, hnumber, h⟩ := bind_eq_ok.mp h
  obtain ⟨rfl, rfl⟩ := ok_pair_inj.mp h
  simp only [scanNumber, literal_append ht hliteral, hnumber, ok_bind]
  rfl

end Behind

/-! ## Integers -/

/-- The integers that are read as integers: those of 64 bits, with or without a sign. -/
def IntegerFits (i : Int) : Prop := -(Nat.pow 2 63 : Nat) ≤ i ∧ i < (Nat.pow 2 64 : Nat)

instance (i : Int) : Decidable (IntegerFits i) := by
  unfold IntegerFits; infer_instance

theorem isDigit_of_mem_toDigits {n : Nat} {c : Char} (h : c ∈ Nat.toDigits 10 n) :
    c.isDigit = true :=
  Nat.isDigit_of_mem_toDigits (by decide) (by decide) h

theorem digitsValue_toDigits (n : Nat) : digitsValue (Nat.toDigits 10 n) = n := by
  rw [digitsValue, ← Nat.ofDigitChars_eq_foldl]
  exact Nat.ofDigitChars_ten_toDigits

/-- Only the digits of zero start with a zero. -/
theorem toDigits_eq_cons_zero {n : Nat} {ds : List Char} (h : Nat.toDigits 10 n = '0' :: ds) :
    n = 0 := by
  induction n using Nat.strongRecOn generalizing ds with
  | ind n ih =>
    rcases Nat.lt_or_ge n 10 with hlt | hge
    · rw [Nat.toDigits_of_lt_base hlt] at h
      have hdigit : n.digitChar = '0' := (List.cons.inj h).1
      have hsmall : ∀ m < 10, Nat.digitChar m = '0' → m = 0 := by decide
      exact hsmall n hlt hdigit
    · -- the digits of a tenth stand in front of the last one
      rw [Nat.toDigits_of_base_le (by decide) hge] at h
      cases hfront : Nat.toDigits 10 (n / 10) with
      | nil => exact absurd hfront Nat.toDigits_ne_nil
      | cons d front =>
        rw [hfront, List.cons_append] at h
        have hd : d = '0' := (List.cons.inj h).1
        have hzero : n / 10 = 0 := ih (n / 10) (by omega) (hd ▸ hfront)
        omega

/-- The digits of a number are all of what is read before the point. -/
theorem wholePart_toDigits (n : Nat) :
    wholePart (Nat.toDigits 10 n) = .ok (Nat.toDigits 10 n, []) := by
  cases hdigits : Nat.toDigits 10 n with
  | nil => exact absurd hdigits Nat.toDigits_ne_nil
  | cons d ds =>
    have hall : ∀ c ∈ d :: ds, c.isDigit = true := fun c hc =>
      isDigit_of_mem_toDigits (hdigits ▸ hc)
    -- a zero in front is all of the number
    by_cases hd : d = '0'
    · subst hd
      obtain rfl := toDigits_eq_cons_zero hdigits
      obtain rfl : ds = [] := (List.cons.inj hdigits).2.symm
      rfl
    · rw [wholePart_of_ne_zero hd, if_pos (hall d (List.mem_cons_self ..)), digits_of_all hall]

theorem literal_toDigits (negative : Bool) (n : Nat) :
    literal negative (Nat.toDigits 10 n) = .ok (⟨negative, Nat.toDigits 10 n, none, none⟩, []) := by
  rw [literal, wholePart_toDigits]
  rfl

theorem number_toDigits {negative : Bool} {n : Nat} {i : Int}
    (hi : (if negative then -(n : Int) else n) = i) (hfits : IntegerFits i)
    (hzero : negative = true → 0 < n) :
    Literal.number ⟨negative, Nat.toDigits 10 n, none, none⟩ = .ok (.integer i) := by
  have hinteger : Literal.integer? ⟨negative, Nat.toDigits 10 n, none, none⟩ = some i := by
    obtain ⟨hlow, hhigh⟩ := hfits
    cases negative with
    | true =>
      simp only [if_true] at hi
      -- negative integers have 63 bits, others 64
      have hbound : 0 < n ∧ n ≤ Nat.pow 2 63 := ⟨hzero rfl, by omega⟩
      simp [Literal.integer?, digitsValue_toDigits, hbound, hi]
    | false =>
      simp only [Bool.false_eq_true, if_false] at hi
      have hbound : n < Nat.pow 2 64 := by omega
      simp [Literal.integer?, digitsValue_toDigits, hbound, hi]
  rw [Literal.number, hinteger]

theorem scanNumber_toDigits {negative : Bool} {n : Nat} {i : Int} {tail : List Char}
    (ht : Ends tail) (hi : (if negative then -(n : Int) else n) = i) (hfits : IntegerFits i)
    (hzero : negative = true → 0 < n) :
    scanNumber negative (Nat.toDigits 10 n ++ tail) = .ok (.integer i, tail) := by
  have hscan : scanNumber negative (Nat.toDigits 10 n) = .ok (.integer i, []) := by
    rw [scanNumber, literal_toDigits, ok_bind]
    simp only [number_toDigits hi hfits hzero, ok_bind]
    rfl
  exact scanNumber_append ht hscan

/-- An integer that is read fits. -/
theorem Literal.fits_of_number {l : Literal} {i : Int} (h : l.number = .ok (.integer i)) :
    IntegerFits i := by
  have hinteger : l.integer? = some i := by
    unfold Literal.number at h
    split at h
    · rename_i j hj
      cases h
      exact hj
    · split at h <;> exact absurd h (by simp)
  unfold Literal.integer? at hinteger
  unfold IntegerFits
  split at hinteger
  · exact absurd hinteger (by simp)
  · dsimp only at hinteger
    split at hinteger
    · split at hinteger
      · cases hinteger
        omega
      · exact absurd hinteger (by simp)
    · split at hinteger
      · cases hinteger
        omega
      · exact absurd hinteger (by simp)

/-! ## The characters of a number -/

/-- The characters that written numbers consist of. -/
def isNumberChar (c : Char) : Bool := c.isDigit || c == '.' || c == 'e' || c == '+' || c == '-'

theorem isNumberChar_of_isDigit {c : Char} (h : c.isDigit = true) : isNumberChar c = true := by
  simp [isNumberChar, h]

theorem isNumberChar_of_mem_decimalDigits {n : Nat} {c : Char} (h : c ∈ decimalDigits n) :
    isNumberChar c = true :=
  isNumberChar_of_isDigit (isDigit_of_mem_toDigits h)

/-- A number character starts neither a value of another kind nor anything else. -/
theorem isNumberChar_ne {c d : Char} (h : isNumberChar c = true) (hd : isNumberChar d = false) :
    c ≠ d := by
  rintro rfl
  rw [hd] at h
  exact absurd h Bool.false_ne_true

theorem not_isSpace_of_isNumberChar {c : Char} (h : isNumberChar c = true) :
    isSpace c = false := by
  simp only [isSpace, Bool.or_eq_false_iff, beq_eq_false_iff_ne]
  exact ⟨⟨⟨isNumberChar_ne h rfl, isNumberChar_ne h rfl⟩, isNumberChar_ne h rfl⟩,
    isNumberChar_ne h rfl⟩

/-- The characters of a text that can be looked through one by one. -/
theorem isNumberChar_of_mem_text {text : String} (h : text.toList.all isNumberChar = true) :
    ∀ c ∈ text.toList, isNumberChar c = true :=
  List.all_eq_true.mp h

theorem isNumberChar_of_mem_positional {digits : List Char} {point : Int}
    (h : ∀ c ∈ digits, isNumberChar c = true) :
    ∀ c ∈ positional digits point, isNumberChar c = true := by
  intro c hc
  unfold positional at hc
  split at hc
  · -- zeros stand between the point and the digits
    simp only [List.mem_append, List.mem_replicate] at hc
    rcases hc with (hc | ⟨-, rfl⟩) | hc
    · exact isNumberChar_of_mem_text rfl c hc
    · rfl
    · exact h c hc
  · split at hc
    · simp only [List.mem_append, List.mem_replicate] at hc
      rcases hc with (hc | ⟨-, rfl⟩) | hc
      · exact h c hc
      · rfl
      · exact isNumberChar_of_mem_text rfl c hc
    · rcases List.mem_append.mp hc with hc | hc
      · exact h c (List.mem_of_mem_take hc)
      · rcases List.mem_cons.mp hc with rfl | hc
        · rfl
        · exact h c (List.mem_of_mem_drop hc)

theorem isNumberChar_of_mem_exponential {digits : List Char} {exponent : Int}
    (h : ∀ c ∈ digits, isNumberChar c = true) :
    ∀ c ∈ exponential digits exponent, isNumberChar c = true := by
  intro c hc
  unfold exponential at hc
  rcases List.mem_append.mp hc with hc | hc
  · split at hc
    · rename_i d e rest
      simp only [List.mem_cons] at hc
      rcases hc with rfl | rfl | hc
      · exact h c (List.mem_cons_self ..)
      · rfl
      · exact h c (List.mem_cons_of_mem _ (List.mem_cons.mpr hc))
    · exact h c hc
  · -- behind the digits stand the mark, the sign and the digits of the exponent
    simp only [List.mem_cons] at hc
    rcases hc with rfl | rfl | hc
    · rfl
    · split <;> rfl
    · exact isNumberChar_of_mem_decimalDigits hc

theorem isNumberChar_of_mem_doubleText (d : Double) : ∀ c ∈ d.text, isNumberChar c = true := by
  have hmagnitude : ∀ c ∈ magnitudeText d.units, isNumberChar c = true := by
    unfold magnitudeText
    split
    · exact isNumberChar_of_mem_text rfl
    · -- trailing zeros are dropped, what is left are digits
      have hdigits (n : Nat) : ∀ c ∈ ((decimalDigits n).reverse.dropWhile (· == '0')).reverse,
          isNumberChar c = true := by
        intro c hc
        have hc := (List.dropWhile_suffix _).subset (List.mem_reverse.mp hc)
        exact isNumberChar_of_mem_decimalDigits (List.mem_reverse.mp hc)
      dsimp only
      split
      · exact isNumberChar_of_mem_positional (hdigits _)
      · exact isNumberChar_of_mem_exponential (hdigits _)
  intro c hc
  unfold Double.text at hc
  split at hc
  · rcases List.mem_cons.mp hc with rfl | hc
    · rfl
    · exact hmagnitude c hc
  · exact hmagnitude c hc

theorem doubleText_ne_nil (d : Double) : d.text ≠ [] := by
  have hpositional (digits : List Char) (point : Int) : positional digits point ≠ [] := by
    unfold positional
    split
    · simp
    · split <;> simp
  have hexponential (digits : List Char) (exponent : Int) : exponential digits exponent ≠ [] := by
    unfold exponential
    exact List.append_ne_nil_of_right_ne_nil _ (List.cons_ne_nil _ _)
  unfold Double.text magnitudeText
  split
  · exact List.cons_ne_nil _ _
  · split
    · decide
    · dsimp only
      split
      · exact hpositional _ _
      · exact hexponential _ _

/-! ## Written numbers -/

/-- The number's text is one that is read back: behind its minus, or from its first digit on. -/
inductive Number.ReadsBack (n : Number) : Prop where
  | negative (cs : List Char) (hchars : n.chars = '-' :: cs)
    (hread : ∀ tail, Ends tail → scanNumber true (cs ++ tail) = .ok (n, tail))
  | positive (c : Char) (cs : List Char) (hchars : n.chars = c :: cs) (hc : c.isDigit = true)
    (hread : ∀ tail, Ends tail → scanNumber false (c :: cs ++ tail) = .ok (n, tail))

namespace Number

theorem readsBack_integer {i : Int} (h : IntegerFits i) : ReadsBack (.integer i) := by
  -- the sign decides with which character the text starts
  by_cases hi : i < 0
  · refine .negative (Nat.toDigits 10 i.natAbs) ?_ fun tail ht => ?_
    · rw [chars, intChars, if_pos hi]
    · exact scanNumber_toDigits ht (by rw [if_pos rfl]; omega) h fun _ => by omega
  · cases hdigits : Nat.toDigits 10 i.natAbs with
    | nil => exact absurd hdigits Nat.toDigits_ne_nil
    | cons c cs =>
      refine .positive c cs ?_ (isDigit_of_mem_toDigits (hdigits ▸ List.mem_cons_self ..))
        fun tail ht => ?_
      · rw [chars, intChars, if_neg hi, hdigits]
      · rw [← hdigits]
        exact scanNumber_toDigits ht (by rw [if_neg Bool.false_ne_true]; omega) h
          (fun h => absurd h Bool.false_ne_true)

/-- A written number starts with a character of numbers. -/
theorem starts_number (n : Number) : ∃ c cs, n.chars = c :: cs ∧ isNumberChar c = true := by
  have hchars : n.chars ≠ [] ∧ ∀ c ∈ n.chars, isNumberChar c = true := by
    cases n with
    | integer i =>
      have hdigits (n : Nat) : ∀ c ∈ Nat.toDigits 10 n, isNumberChar c = true := fun c hc =>
        isNumberChar_of_mem_decimalDigits hc
      simp only [chars, intChars]
      split
      · refine ⟨List.cons_ne_nil _ _, ?_⟩
        intro c hc
        rcases List.mem_cons.mp hc with rfl | hc
        · rfl
        · exact hdigits _ c hc
      · exact ⟨Nat.toDigits_ne_nil, hdigits _⟩
    | double d => exact ⟨doubleText_ne_nil d, isNumberChar_of_mem_doubleText d⟩
  obtain ⟨c, cs, heq⟩ := List.exists_cons_of_ne_nil hchars.1
  exact ⟨c, cs, heq, hchars.2 c (heq ▸ List.mem_cons_self ..)⟩

end Number

end RecipeClient.Json
