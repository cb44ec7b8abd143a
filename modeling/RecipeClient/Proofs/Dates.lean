import RecipeClient.Proofs.Json.Tokens
import RecipeClient.Time.Date

/-!
# Written dates are read back

Every part of a written date is a run of digits: a year has at most four of them or a sign in
front, a month or day has two. No part starts with a blank, so the reader takes each of them to its
end.

- `ofText_text`: the text of a date is read as the date
-/

namespace RecipeClient.Date

open Json (DateProblem bind_eq_ok ok_bind)

/-! ## Digits -/

theorem isBlank_eq_false_of_isDigit {c : Char} (h : c.isDigit = true) :
    Text.isBlank c = false := by
  have hdigit : 48 ≤ c.toNat ∧ c.toNat ≤ 57 := by
    simpa [Char.isDigit, UInt32.le_iff_toNat_le] using h
  simp only [Text.isBlank, Text.blankRanges, List.any_eq_false, List.mem_cons, List.not_mem_nil,
    or_false, Bool.and_eq_true, decide_eq_true_eq]
  rintro range (rfl | rfl | rfl | rfl | rfl | rfl | rfl | rfl | rfl | rfl) <;> omega

theorem trimStart_cons {c : Char} (h : Text.isBlank c = false) (cs : List Char) :
    Text.trimStart (c :: cs) = c :: cs := by
  simp [Text.trimStart, h]

/-- More digits make a number no smaller. -/
theorem le_ofDigitChars (ds : List Char) (sofar : Nat) : sofar ≤ Nat.ofDigitChars 10 ds sofar := by
  induction ds generalizing sofar with
  | nil => exact Nat.le_refl _
  | cons d ds ih =>
    rw [Nat.ofDigitChars_cons]
    exact Nat.le_trans (by omega) (ih _)

/-- A run of digits is read to its end. -/
theorem readDigits_append (begun : Bool) (sofar : Nat) {width : Nat} {ds rest : List Char}
    (hds : ∀ d ∈ ds, d.isDigit = true) (hrest : ∀ c ∈ rest.head?, c.isDigit = false)
    (hbegun : begun = true ∨ ds ≠ []) (hwidth : ds.length ≤ width)
    (hlimit : Nat.ofDigitChars 10 ds sofar ≤ partLimit) :
    readDigits begun sofar width (ds ++ rest) = .ok (Nat.ofDigitChars 10 ds sofar, rest) := by
  induction ds generalizing begun sofar width with
  | nil =>
    have hbegun : begun = true := hbegun.resolve_right (fun h => h rfl)
    cases width with
    | zero => rfl
    | succ width =>
      cases rest with
      | nil => simp [readDigits, hbegun]
      | cons c rest => simp [readDigits, hbegun, hrest c rfl]
  | cons d ds ih =>
    cases width with
    | zero => exact absurd hwidth (Nat.not_succ_le_zero _)
    | succ width =>
      rw [Nat.ofDigitChars_cons] at hlimit ⊢
      -- later digits only add to the number, so no step passes the limit
      have hnext := Nat.le_trans (le_ofDigitChars ds _) hlimit
      rw [List.cons_append, readDigits, if_pos (hds d (List.mem_cons_self ..)), if_pos hnext]
      exact ih true _ (fun e he => hds e (List.mem_cons_of_mem _ he)) (Or.inl rfl)
        (Nat.le_of_succ_le_succ hwidth) hlimit

/-! ## Padded numbers -/

theorem isDigit_of_mem_padded {width n : Nat} {c : Char} (h : c ∈ padded width n) :
    c.isDigit = true := by
  rcases List.mem_append.mp h with h | h
  · rw [(List.mem_replicate.mp h).2]
    rfl
  · exact Nat.isDigit_of_mem_toDigits (by decide) (by decide) h

theorem ofDigitChars_padded (width n : Nat) : Nat.ofDigitChars 10 (padded width n) 0 = n := by
  rw [padded, Nat.ofDigitChars_append, Nat.ofDigitChars_replicate_zero, Nat.mul_zero,
    Nat.ofDigitChars_ten_toDigits]

theorem padded_ne_nil (width n : Nat) : padded width n ≠ [] :=
  List.append_ne_nil_of_right_ne_nil _ Nat.toDigits_ne_nil

theorem length_padded {width n : Nat} (hwidth : 0 < width) (h : n < Nat.pow 10 width) :
    (padded width n).length ≤ width := by
  have hdigits := (Nat.length_toDigits_le_iff (by decide) hwidth).mpr h
  rw [padded, List.length_append, List.length_replicate]
  omega

theorem trimStart_padded (width n : Nat) (rest : List Char) :
    Text.trimStart (padded width n ++ rest) = padded width n ++ rest := by
  cases hpadded : padded width n with
  | nil => exact absurd hpadded (padded_ne_nil width n)
  | cons c cs =>
    have hc : c ∈ padded width n := hpadded ▸ List.mem_cons_self ..
    exact trimStart_cons (isBlank_eq_false_of_isDigit (isDigit_of_mem_padded hc)) _

/-- A padded number is read to its end. -/
theorem readDigits_padded {width digits n : Nat} {rest : List Char}
    (hrest : ∀ c ∈ rest.head?, c.isDigit = false) (hwidth : (padded digits n).length ≤ width)
    (hlimit : n ≤ partLimit) :
    readDigits false 0 width (padded digits n ++ rest) = .ok (n, rest) := by
  have hread := readDigits_append false 0 (fun d hd => isDigit_of_mem_padded hd) hrest
    (Or.inr (padded_ne_nil digits n)) hwidth (by rw [ofDigitChars_padded]; exact hlimit)
  rw [ofDigitChars_padded] at hread
  exact hread

/-! ## Parts of a date -/

/-- Years of dates are far below what a part may be. -/
theorem natAbs_year_le (d : Date) : d.year.natAbs ≤ partLimit := by
  have hsmall : 262143 ≤ partLimit := by decide
  have hyear := d.valid.1
  simp only [firstYear, lastYear] at hyear
  omega

theorem checked_year (d : Date) (rest : List Char) :
    readYear.checked d.year rest = .ok (d.year, rest) := by
  have hmin : Int32.minValue.toInt = -2147483648 := by decide
  have hmax : Int32.maxValue.toInt = 2147483647 := by decide
  have hyear := d.valid.1
  simp only [firstYear, lastYear] at hyear
  rw [readYear.checked, if_pos (by omega)]

/-- A year is read to the dash behind it. -/
theorem readYear_yearChars (d : Date) {rest : List Char}
    (hrest : ∀ c ∈ rest.head?, c.isDigit = false) :
    readYear (yearChars d.year ++ rest) = .ok (d.year, rest) := by
  have hchecked := checked_year d rest
  unfold yearChars
  split
  · rename_i hplain
    -- a year without a sign has four digits, where the reader stops by itself
    have hsmall : d.year.natAbs < 10000 := by omega
    have hlength : (padded 4 d.year.natAbs).length ≤ 4 := length_padded (by decide) hsmall
    have hread := readDigits_padded hrest hlength d.natAbs_year_le
    have hyear : (d.year.natAbs : Int) = d.year := by omega
    rw [readYear, trimStart_padded]
    cases hpadded : padded 4 d.year.natAbs with
    | nil => exact absurd hpadded (padded_ne_nil 4 _)
    | cons c cs =>
      have hc : c.isDigit = true := isDigit_of_mem_padded (hpadded ▸ List.mem_cons_self ..)
      -- the first character is a digit, so it is taken for no sign
      rw [hpadded] at hread
      split
      · rename_i heq
        obtain ⟨rfl, rfl⟩ := List.cons.inj heq
        exact absurd hc (by decide)
      · rename_i heq
        obtain ⟨rfl, rfl⟩ := List.cons.inj heq
        exact absurd hc (by decide)
      · rw [hread, ok_bind]
        exact hyear.symm ▸ hchecked
  · -- behind a sign the reader takes digits as long as there are any
    have hlength : (padded 4 d.year.natAbs).length ≤
        (padded 4 d.year.natAbs ++ rest).length.succ := by
      rw [List.length_append]
      omega
    have hread := readDigits_padded hrest hlength d.natAbs_year_le
    split
    · have hyear : -(d.year.natAbs : Int) = d.year := by omega
      rw [List.cons_append, readYear, trimStart_cons (by decide)]
      simp only [hread, ok_bind]
      exact hyear.symm ▸ hchecked
    · have hyear : (d.year.natAbs : Int) = d.year := by omega
      rw [List.cons_append, readYear, trimStart_cons (by decide)]
      simp only [hread, ok_bind]
      exact hyear.symm ▸ hchecked

/-- A month or day is read to its end. -/
theorem readPart_padded {most n : Nat} {rest : List Char} (hpos : 1 ≤ n) (hmost : n ≤ most)
    (hsmall : n < 100) (hrest : ∀ c ∈ rest.head?, c.isDigit = false) :
    readPart most (padded 2 n ++ rest) = .ok (n, rest) := by
  have hlimit : 100 ≤ partLimit := by decide
  have hlength : (padded 2 n).length ≤ 2 := length_padded (by decide) hsmall
  have hread := readDigits_padded hrest hlength (by omega)
  -- the padding is exactly the width that the reader takes
  rw [readPart, trimStart_padded, hread, ok_bind]
  exact if_pos ⟨hpos, hmost⟩

theorem takeDash_cons (cs : List Char) : takeDash ('-' :: cs) = .ok cs := by
  rw [takeDash, trimStart_cons (by decide)]
  rfl

/-- No month has more than 31 days. -/
theorem daysIn_le (year : Int) (month : Nat) : daysIn year month ≤ 31 := by
  unfold daysIn
  split
  · split <;> decide
  · split <;> decide

/-- The text of a date is read as the date. -/
theorem ofText_text (d : Date) : ofText d.text = .ok d := by
  obtain ⟨_, ⟨hmonth, htwelve⟩, hday, hlast⟩ := d.valid
  have hthirtyone := Nat.le_trans hlast (daysIn_le d.year d.month)
  -- each part ends at its dash, the last one at the end of the text
  have hdash (cs : List Char) : ∀ c ∈ ('-' :: cs).head?, c.isDigit = false := by
    intro c hc
    obtain rfl := Option.some.inj hc
    rfl
  have hend : ∀ c ∈ ([] : List Char).head?, c.isDigit = false := fun c hc =>
    absurd hc (Option.not_mem_none c)
  have hyear := readYear_yearChars d (hdash (padded 2 d.month ++ '-' :: padded 2 d.day))
  have hmonth := readPart_padded hmonth htwelve (by omega) (hdash (padded 2 d.day))
  have hday := readPart_padded hday hthirtyone (by omega) hend
  rw [List.append_nil] at hday
  have hof : of? d.year d.month d.day = some d := dif_pos d.valid
  rw [ofText, text, String.toList_ofList, chars, hyear, ok_bind]
  simp only [takeDash_cons, ok_bind, hmonth, hday, hof]
  rfl

end RecipeClient.Date
