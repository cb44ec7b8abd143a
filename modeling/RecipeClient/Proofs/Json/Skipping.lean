import RecipeClient.Proofs.Json.Restoring

/-!
# Values that are passed over

A value that is passed over needs no more fuel than its text is long, since every container that
is opened takes a character. So how much fuel there is makes no difference, and the items of a list
or the members of an object are passed over one by one.

- `skipNested_of_skipValue`: there is always enough fuel
- `SkippedItems`, `SkippedMembers`: items and members one by one
-/

namespace RecipeClient.Json

/-! ## Every step shortens the text -/

section Lengths

variable {cs rest front : List Char}

theorem length_skipSpace_le (cs : List Char) : (skipSpace cs).length ≤ cs.length :=
  (List.dropWhile_sublist isSpace).length_le

theorem length_lt_of_skipSpace {c : Char} (h : skipSpace cs = c :: front) :
    front.length < cs.length := by
  have hle := length_skipSpace_le cs
  rw [h] at hle
  exact hle

theorem length_word_le {ws : List Char} (h : word ws cs = .ok rest) :
    rest.length ≤ cs.length := by
  induction ws generalizing cs with
  | nil => exact Nat.le_of_eq (congrArg List.length (Except.ok.inj h)).symm
  | cons w ws ih =>
    cases cs with
    | nil => exact absurd h nofun
    | cons c cs =>
      rw [word] at h
      split at h
      · exact Nat.le_succ_of_le (ih h)
      · exact absurd h nofun

theorem length_someDigits_lt {ds : List Char} (h : someDigits cs = .ok (ds, rest)) :
    rest.length < cs.length := by
  have hsplit : (digits cs).1 ++ (digits cs).2 = cs := List.takeWhile_append_dropWhile
  unfold someDigits at h
  split at h
  · exact absurd h nofun
  · exact absurd h nofun
  · rename_i heq
    obtain ⟨rfl, rfl⟩ := ok_pair_inj.mp h
    -- at least one digit was taken
    have hlength := congrArg List.length hsplit
    simp only [heq, List.length_append, List.length_cons] at hlength
    omega

theorem length_wholePart_lt {whole : List Char} (h : wholePart cs = .ok (whole, rest)) :
    rest.length < cs.length := by
  unfold wholePart at h
  split at h
  · exact absurd h nofun
  · split at h
    · split at h
      · exact absurd h nofun
      · obtain ⟨_, rfl⟩ := ok_pair_inj.mp h
        exact Nat.lt_succ_self _
    · obtain ⟨_, rfl⟩ := ok_pair_inj.mp h
      exact Nat.lt_succ_self _
  · rename_i c cs _
    split at h
    · rename_i hc
      obtain ⟨_, rfl⟩ := ok_pair_inj.mp h
      have hle := (List.dropWhile_sublist (l := cs) Char.isDigit).length_le
      rw [List.dropWhile_cons, if_pos hc]
      exact Nat.lt_succ_of_le hle
    · exact absurd h nofun

theorem length_fractionPart_le {fraction : Option (List Char)}
    (h : fractionPart cs = .ok (fraction, rest)) : rest.length ≤ cs.length := by
  unfold fractionPart at h
  split at h
  · obtain ⟨⟨ds, _⟩, hdigits, h⟩ := bind_eq_ok.mp h
    obtain ⟨_, rfl⟩ := ok_pair_inj.mp h
    have hlt := length_someDigits_lt hdigits
    exact Nat.le_of_lt (Nat.lt_succ_of_lt hlt)
  · obtain ⟨_, rfl⟩ := ok_pair_inj.mp h
    exact Nat.le_refl _

theorem length_signedExponent_lt {e : Int} (h : signedExponent cs = .ok (e, rest)) :
    rest.length < cs.length := by
  unfold signedExponent at h
  split at h
  all_goals
    obtain ⟨⟨ds, _⟩, hdigits, h⟩ := bind_eq_ok.mp h
    obtain ⟨_, rfl⟩ := ok_pair_inj.mp h
    have hlt := length_someDigits_lt hdigits
    first
      | exact hlt
      | exact Nat.lt_succ_of_lt hlt

theorem length_exponentPart_le {exponent : Option Int}
    (h : exponentPart cs = .ok (exponent, rest)) : rest.length ≤ cs.length := by
  unfold exponentPart at h
  split at h
  · obtain ⟨⟨e, _⟩, hsigned, h⟩ := bind_eq_ok.mp h
    obtain ⟨_, rfl⟩ := ok_pair_inj.mp h
    exact Nat.le_of_lt (Nat.lt_succ_of_lt (length_signedExponent_lt hsigned))
  · obtain ⟨⟨e, _⟩, hsigned, h⟩ := bind_eq_ok.mp h
    obtain ⟨_, rfl⟩ := ok_pair_inj.mp h
    exact Nat.le_of_lt (Nat.lt_succ_of_lt (length_signedExponent_lt hsigned))
  · obtain ⟨_, rfl⟩ := ok_pair_inj.mp h
    exact Nat.le_refl _

theorem length_literal_lt {negative : Bool} {l : Literal}
    (h : literal negative cs = .ok (l, rest)) : rest.length < cs.length := by
  obtain ⟨⟨whole, _⟩, hwhole, h⟩ := bind_eq_ok.mp h
  obtain ⟨⟨fraction, _⟩, hfraction, h⟩ := bind_eq_ok.mp h
  obtain ⟨⟨exponent, _⟩, hexponent, h⟩ := bind_eq_ok.mp h
  obtain ⟨_, rfl⟩ := ok_pair_inj.mp h
  calc _ ≤ _ := length_exponentPart_le hexponent
    _ ≤ _ := length_fractionPart_le hfraction
    _ < _ := length_wholePart_lt hwhole

end Lengths

/-! ## Values are shortened -/

section Shortening

variable {cs rest : List Char}

theorem length_skipNumber_lt (h : skipNumber cs = .ok rest) : rest.length < cs.length := by
  unfold skipNumber at h
  split at h
  · rename_i hliteral
    obtain rfl := Except.ok.inj h
    exact length_literal_lt hliteral
  · exact absurd h nofun

theorem length_skipString_lt (h : skipString cs = .ok rest) : rest.length < cs.length := by
  fun_induction skipString cs with
  | case2 cs =>
    -- the closing quote
    obtain rfl := Except.ok.inj h
    exact Nat.lt_succ_self _
  | case4 a b c d cs n hunit ih =>
    have hlt := ih h
    simp only [List.length_cons]
    omega
  | case7 e cs _ _ c hescaped ih =>
    have hlt := ih h
    simp only [List.length_cons]
    omega
  | case10 c cs _ _ _ _ _ hcontrol ih => exact Nat.lt_succ_of_lt (ih h)
  | _ => exact absurd h nofun

theorem colon_eq_ok : colon cs = .ok rest ↔ skipSpace cs = ':' :: rest := by
  unfold colon
  split
  · rename_i h
    simp [h]
  · rename_i h
    simp [h]
  · rename_i c tail hc h
    constructor
    · exact nofun
    · intro heq
      exact absurd (List.cons.inj (h.symm.trans heq)).1 hc

theorem length_skipKey_lt (h : skipKey cs = .ok rest) : rest.length < cs.length := by
  unfold skipKey at h
  split at h
  · exact absurd h nofun
  · rename_i hquote
    obtain ⟨behind, hstring, h⟩ := bind_eq_ok.mp h
    calc rest.length < behind.length := length_lt_of_skipSpace (colon_eq_ok.mp h)
      _ < _ := length_skipString_lt hstring
      _ < cs.length := length_lt_of_skipSpace hquote
  · exact absurd h nofun

variable {skip : List Char → Except Problem (List Char)}
  (hskip : ∀ {cs rest : List Char}, skip cs = .ok rest → rest.length < cs.length)

include hskip

theorem length_skipItems_lt {fuel : Nat} (h : skipItems skip fuel cs = .ok rest) :
    rest.length < cs.length := by
  induction fuel generalizing cs with
  | zero => exact absurd h nofun
  | succ fuel ih =>
    unfold skipItems at h
    split at h
    · exact absurd h nofun
    · rename_i hclosed
      obtain rfl := Except.ok.inj h
      exact length_lt_of_skipSpace hclosed
    · rename_i hcomma
      obtain ⟨behind, hitem, h⟩ := bind_eq_ok.mp h
      calc rest.length < behind.length := ih h
        _ < _ := hskip hitem
        _ < cs.length := length_lt_of_skipSpace hcomma
    · exact absurd h nofun

theorem length_skipMembers_lt {fuel : Nat} (h : skipMembers skip fuel cs = .ok rest) :
    rest.length < cs.length := by
  induction fuel generalizing cs with
  | zero => exact absurd h nofun
  | succ fuel ih =>
    unfold skipMembers at h
    split at h
    · exact absurd h nofun
    · rename_i hclosed
      obtain rfl := Except.ok.inj h
      exact length_lt_of_skipSpace hclosed
    · rename_i hcomma
      obtain ⟨value, hkey, h⟩ := bind_eq_ok.mp h
      obtain ⟨behind, hvalue, h⟩ := bind_eq_ok.mp h
      calc rest.length < behind.length := ih h
        _ < value.length := hskip hvalue
        _ < _ := length_skipKey_lt hkey
        _ < cs.length := length_lt_of_skipSpace hcomma
    · exact absurd h nofun

omit hskip

theorem length_skipNested_lt {fuel : Nat} (h : skipNested fuel cs = .ok rest) :
    rest.length < cs.length := by
  induction fuel generalizing cs rest with
  | zero => exact absurd h nofun
  | succ fuel ih =>
    unfold skipNested at h
    split at h
    · exact absurd h nofun
    · rename_i hfront
      exact Nat.lt_of_le_of_lt (length_word_le h) (length_lt_of_skipSpace hfront)
    · rename_i hfront
      exact Nat.lt_of_le_of_lt (length_word_le h) (length_lt_of_skipSpace hfront)
    · rename_i hfront
      exact Nat.lt_of_le_of_lt (length_word_le h) (length_lt_of_skipSpace hfront)
    · rename_i hfront
      exact Nat.lt_trans (length_skipNumber_lt h) (length_lt_of_skipSpace hfront)
    · rename_i hfront
      exact Nat.lt_trans (length_skipString_lt h) (length_lt_of_skipSpace hfront)
    · rename_i front hfront
      -- the first item stands behind the bracket, the others behind it
      have hlt := length_lt_of_skipSpace hfront
      have hle := length_skipSpace_le front
      split at h
      · exact absurd h nofun
      · rename_i hclosed
        obtain rfl := Except.ok.inj h
        exact Nat.lt_trans (length_lt_of_skipSpace hclosed) hlt
      · obtain ⟨behind, hitem, h⟩ := bind_eq_ok.mp h
        calc rest.length < behind.length := length_skipItems_lt ih h
          _ < (skipSpace front).length := ih hitem
          _ < cs.length := Nat.lt_of_le_of_lt hle hlt
    · rename_i front hfront
      have hlt := length_lt_of_skipSpace hfront
      have hle := length_skipSpace_le front
      split at h
      · exact absurd h nofun
      · rename_i hclosed
        obtain rfl := Except.ok.inj h
        exact Nat.lt_trans (length_lt_of_skipSpace hclosed) hlt
      · obtain ⟨value, hkey, h⟩ := bind_eq_ok.mp h
        obtain ⟨behind, hvalue, h⟩ := bind_eq_ok.mp h
        calc rest.length < behind.length := length_skipMembers_lt ih h
          _ < value.length := ih hvalue
          _ < (skipSpace front).length := length_skipKey_lt hkey
          _ < cs.length := Nat.lt_of_le_of_lt hle hlt
    · rename_i hfront
      split at h
      · have hlt := length_skipNumber_lt h
        rw [← hfront] at hlt
        exact Nat.lt_of_lt_of_le hlt (length_skipSpace_le cs)
      · exact absurd h nofun

end Shortening

/-! ## More fuel makes no difference -/

section Fuel

variable {cs rest : List Char}

theorem skipItems_mono {skip more : List Char → Except Problem (List Char)}
    (hmore : ∀ {cs rest}, skip cs = .ok rest → more cs = .ok rest) {fuel : Nat}
    (h : skipItems skip fuel cs = .ok rest) : skipItems more fuel cs = .ok rest := by
  induction fuel generalizing cs with
  | zero => exact absurd h nofun
  | succ fuel ih =>
    unfold skipItems at h ⊢
    split at h
    · exact absurd h nofun
    · exact h
    · obtain ⟨behind, hitem, h⟩ := bind_eq_ok.mp h
      rw [hmore hitem]
      exact ih h
    · exact absurd h nofun

theorem skipMembers_mono {skip more : List Char → Except Problem (List Char)}
    (hmore : ∀ {cs rest}, skip cs = .ok rest → more cs = .ok rest) {fuel : Nat}
    (h : skipMembers skip fuel cs = .ok rest) : skipMembers more fuel cs = .ok rest := by
  induction fuel generalizing cs with
  | zero => exact absurd h nofun
  | succ fuel ih =>
    unfold skipMembers at h ⊢
    split at h
    · exact absurd h nofun
    · exact h
    · obtain ⟨value, hkey, h⟩ := bind_eq_ok.mp h
      obtain ⟨behind, hvalue, h⟩ := bind_eq_ok.mp h
      rw [hkey, ok_bind, hmore hvalue]
      exact ih h
    · exact absurd h nofun

theorem skipNested_succ {fuel : Nat} (h : skipNested fuel cs = .ok rest) :
    skipNested (fuel + 1) cs = .ok rest := by
  induction fuel generalizing cs rest with
  | zero => exact absurd h nofun
  | succ fuel ih =>
    unfold skipNested at h ⊢
    split at h
    -- only what stands in a container is passed over with other fuel
    case h_7 =>
      split at h
      · exact absurd h nofun
      · exact h
      · obtain ⟨behind, hitem, h⟩ := bind_eq_ok.mp h
        rw [ih hitem]
        exact skipItems_mono ih h
    case h_8 =>
      split at h
      · exact absurd h nofun
      · exact h
      · obtain ⟨value, hkey, h⟩ := bind_eq_ok.mp h
        obtain ⟨behind, hvalue, h⟩ := bind_eq_ok.mp h
        rw [hkey, ok_bind, ih hvalue]
        exact skipMembers_mono ih h
    all_goals exact h

theorem skipNested_mono {fuel more : Nat} (h : skipNested fuel cs = .ok rest) (hle : fuel ≤ more) :
    skipNested more cs = .ok rest := by
  induction hle with
  | refl => exact h
  | step _ ih => exact skipNested_succ ih

/-- Whatever is passed over is so with any fuel that is more than its text is long. -/
theorem skipNested_of_skipValue {fuel : Nat} (h : skipValue cs = .ok rest)
    (hfuel : cs.length < fuel) : skipNested fuel cs = .ok rest :=
  skipNested_mono h hfuel

theorem length_skipValue_lt (h : skipValue cs = .ok rest) : rest.length < cs.length :=
  length_skipNested_lt h

theorem skipNested_skipSpace (fuel : Nat) (cs : List Char) :
    skipNested fuel (skipSpace cs) = skipNested fuel cs := by
  cases fuel with
  | zero => rfl
  | succ fuel => rw [skipNested, skipNested, skipSpace_skipSpace]

/-- The space in front of a value is passed over with it. -/
theorem skipValue_of_skipSpace (h : skipValue (skipSpace cs) = .ok rest) :
    skipValue cs = .ok rest := by
  rw [skipValue, ← skipNested_skipSpace]
  exact skipNested_of_skipValue h (Nat.lt_succ_of_le (length_skipSpace_le cs))

end Fuel

/-! ## Scalars are passed over -/

/-- A number is passed over with or without its minus. -/
theorem skipNumber_of_scanNumber {negative : Bool} {cs rest : List Char} {n : Number}
    (h : scanNumber negative cs = .ok (n, rest)) : skipNumber cs = .ok rest := by
  obtain ⟨⟨l, _⟩, hliteral, h⟩ := bind_eq_ok.mp h
  obtain ⟨_, _, h⟩ := bind_eq_ok.mp h
  obtain ⟨_, rfl⟩ := ok_pair_inj.mp h
  obtain ⟨⟨whole, _⟩, hwhole, hrest⟩ := bind_eq_ok.mp hliteral
  obtain ⟨⟨fraction, _⟩, hfraction, hrest⟩ := bind_eq_ok.mp hrest
  obtain ⟨⟨exponent, _⟩, hexponent, hrest⟩ := bind_eq_ok.mp hrest
  obtain ⟨_, rfl⟩ := ok_pair_inj.mp hrest
  simp only [skipNumber, literal, hwhole, hfraction, hexponent, ok_bind]
  rfl

/-- A string is passed over one code unit at a time, where a reader takes the halves of a pair
together. -/
theorem skipString_of_stringFrom (sofar cs : List Char) {chars rest : List Char}
    (h : stringFrom sofar cs = .ok (chars, rest)) : skipString cs = .ok rest := by
  fun_induction stringFrom sofar cs with
  | case2 sofar cs =>
    obtain ⟨_, rfl⟩ := ok_pair_inj.mp h
    rfl
  | case8 sofar a b c d n hunit _ _ a' b' c' d' cs m hunit' _ ih =>
    -- the halves of a pair are two escapes, each of which is passed over
    simp only [skipString, hunit, hunit', ih h]
  | case12 sofar a b c d cs n hunit _ _ ih => simp only [skipString, hunit, ih h]
  | case15 sofar e cs _ _ c hescaped ih => simp only [skipString, hescaped, ih h]
  | case18 sofar c cs _ _ _ _ _ hcontrol ih => simp only [skipString, if_neg hcontrol, ih h]
  | _ => exact absurd h nofun

theorem skipString_of_scanString {cs rest : List Char} {s : String}
    (h : scanString cs = .ok (s, rest)) : skipString cs = .ok rest := by
  obtain ⟨⟨chars, _⟩, hread, h⟩ := bind_eq_ok.mp h
  obtain ⟨_, rfl⟩ := ok_pair_inj.mp h
  exact skipString_of_stringFrom [] cs hread

section Scalars

variable {cs rest front : List Char}

theorem skipValue_null (hfront : skipSpace cs = 'n' :: front)
    (h : word "ull".toList front = .ok rest) : skipValue cs = .ok rest := by
  simp only [skipValue, skipNested, hfront]
  exact h

theorem skipValue_true (hfront : skipSpace cs = 't' :: front)
    (h : word "rue".toList front = .ok rest) : skipValue cs = .ok rest := by
  simp only [skipValue, skipNested, hfront]
  exact h

theorem skipValue_false (hfront : skipSpace cs = 'f' :: front)
    (h : word "alse".toList front = .ok rest) : skipValue cs = .ok rest := by
  simp only [skipValue, skipNested, hfront]
  exact h

theorem skipValue_minus {n : Number} (hfront : skipSpace cs = '-' :: front)
    (h : scanNumber true front = .ok (n, rest)) : skipValue cs = .ok rest := by
  simp only [skipValue, skipNested, hfront]
  exact skipNumber_of_scanNumber h

theorem skipValue_digit {n : Number} {c : Char} (hfront : skipSpace cs = c :: front)
    (hc : c.isDigit = true) (h : scanNumber false (c :: front) = .ok (n, rest)) :
    skipValue cs = .ok rest := by
  unfold skipValue skipNested
  -- a digit is none of the characters that start another kind of value
  split <;> rename_i heq
  · exact absurd (hfront.symm.trans heq) nofun
  all_goals
    obtain ⟨rfl, rfl⟩ := List.cons.inj (hfront.symm.trans heq)
    first
      | exact absurd hc (by decide)
      | rw [if_pos hc]; exact skipNumber_of_scanNumber h

theorem skipValue_string {s : String} (hfront : skipSpace cs = '"' :: front)
    (h : scanString front = .ok (s, rest)) : skipValue cs = .ok rest := by
  simp only [skipValue, skipNested, hfront]
  exact skipString_of_scanString h

end Scalars

/-! ## Lists -/

section Lists

variable {cs rest front : List Char} {first : Bool}

/-- The items of a list are passed over, up to and including its closing bracket. -/
inductive SkippedItems : Bool → List Char → List Char → Prop where
  | done {first : Bool} {cs rest : List Char} (closed : nextElement first cs = .ok (false, rest)) :
      SkippedItems first cs rest
  | item {first : Bool} {cs front behind rest : List Char}
      (next : nextElement first cs = .ok (true, front)) (value : skipValue front = .ok behind)
      (others : SkippedItems false behind rest) : SkippedItems first cs rest

theorem skipSpace_of_nextElement_end (h : nextElement first cs = .ok (false, rest)) :
    skipSpace cs = ']' :: rest := by
  unfold nextElement at h
  split at h
  · exact absurd h nofun
  · rename_i hfront
    obtain ⟨_, rfl⟩ := ok_pair_inj.mp h
    exact hfront
  · -- anything but a bracket goes on with an item
    split at h
    · exact absurd (congrArg (·.map Prod.fst) h) nofun
    · split at h
      · split at h
        · exact absurd h nofun
        · exact absurd h nofun
        · exact absurd (congrArg (·.map Prod.fst) h) nofun
      · exact absurd h nofun

theorem skipSpace_of_nextElement_first (h : nextElement true cs = .ok (true, front)) :
    skipSpace cs = front ∧ ∃ c tail, front = c :: tail ∧ c ≠ ']' := by
  unfold nextElement at h
  split at h
  · exact absurd h nofun
  · exact absurd (congrArg (·.map Prod.fst) h) nofun
  · rename_i c tail hclosed hfront
    obtain ⟨_, rfl⟩ := ok_pair_inj.mp h
    exact ⟨hfront, c, tail, rfl, hclosed⟩

theorem skipSpace_of_nextElement_later (h : nextElement false cs = .ok (true, front)) :
    ∃ tail, skipSpace cs = ',' :: tail ∧ skipSpace tail = front := by
  unfold nextElement at h
  split at h
  · exact absurd h nofun
  · exact absurd (congrArg (·.map Prod.fst) h) nofun
  · rename_i c tail _ hfront
    rw [if_neg Bool.false_ne_true] at h
    split at h
    · rename_i hcomma
      split at h
      · exact absurd h nofun
      · exact absurd h nofun
      · obtain ⟨_, rfl⟩ := ok_pair_inj.mp h
        exact ⟨tail, hcomma ▸ hfront, rfl⟩
    · exact absurd h nofun

/-- Behind an item, the fuel that is left is enough for the others. -/
theorem SkippedItems.skipItems (h : SkippedItems first cs rest) (hfirst : first = false)
    {inner fuel : Nat} (hinner : cs.length ≤ inner) (hfuel : cs.length ≤ fuel) :
    skipItems (skipNested inner) fuel cs = .ok rest := by
  induction h generalizing fuel with
  | done closed =>
    have hend := skipSpace_of_nextElement_end closed
    have hlt := length_lt_of_skipSpace hend
    cases fuel with
    | zero => exact absurd (Nat.lt_of_lt_of_le hlt hfuel) (Nat.not_lt_zero _)
    | succ fuel => simp only [Json.skipItems, hend]
  | @item first cs front behind rest next value others ih =>
    subst hfirst
    obtain ⟨tail, hcomma, rfl⟩ := skipSpace_of_nextElement_later next
    have hlt := length_lt_of_skipSpace hcomma
    have hvalue := skipValue_of_skipSpace value
    have hbehind := length_skipValue_lt hvalue
    cases fuel with
    | zero => exact absurd (Nat.lt_of_lt_of_le hlt hfuel) (Nat.not_lt_zero _)
    | succ fuel =>
      -- the space in front of the item, which a reader drops with the comma, belongs to the item
      have hskip : skipNested inner tail = .ok behind :=
        skipNested_of_skipValue hvalue (Nat.lt_of_lt_of_le hlt hinner)
      simp only [Json.skipItems, hcomma, hskip, ok_bind]
      exact ih rfl (by omega) (by omega)

/-- A list is passed over if its items are. -/
theorem skipValue_list (hfront : skipSpace cs = '[' :: front) (h : SkippedItems true front rest) :
    skipValue cs = .ok rest := by
  have hlt := length_lt_of_skipSpace hfront
  cases h with
  | done closed => simp only [skipValue, skipNested, hfront, skipSpace_of_nextElement_end closed]
  | @item _ _ item behind _ next value others =>
    obtain ⟨hitem, c, tail, rfl, hc⟩ := skipSpace_of_nextElement_first next
    have hle := length_skipSpace_le front
    rw [hitem] at hle
    have hbehind := length_skipValue_lt value
    have hskip := skipNested_of_skipValue value (Nat.lt_of_le_of_lt hle hlt)
    have hothers : skipItems (skipNested cs.length) behind.length behind = .ok rest :=
      others.skipItems rfl (by omega) (Nat.le_refl _)
    simp only [skipValue, skipNested, hfront, hitem]
    split
    · rename_i heq
      exact absurd heq nofun
    · rename_i heq
      exact absurd (List.cons.inj heq).1 hc
    · rw [hskip, ok_bind, hothers]

end Lists

/-! ## Objects -/

section Objects

variable {cs rest front : List Char} {first : Bool}

/-- The members of an object are passed over, up to and including its closing brace; each is a key
with the text from its value on. -/
inductive SkippedMembers : List (String × List Char) → Bool → List Char → List Char → Prop where
  | done {first : Bool} {cs rest : List Char} (closed : nextKey first cs = .ok (none, rest)) :
      SkippedMembers [] first cs rest
  | member {members : List (String × List Char)} {first : Bool} {key : String}
      {cs front value behind rest : List Char} (next : nextKey first cs = .ok (some key, front))
      (separated : colon front = .ok value) (skipped : skipValue value = .ok behind)
      (others : SkippedMembers members false behind rest) :
      SkippedMembers ((key, value) :: members) first cs rest

theorem key_of_scan {key : Option String} (h : (do
      let (key, rest) ← scanString cs
      return (some key, rest)) = (Except.ok (key, rest) : Except Problem _)) :
    ∃ s, key = some s ∧ scanString cs = .ok (s, rest) := by
  obtain ⟨⟨s, _⟩, hscan, h⟩ := bind_eq_ok.mp h
  obtain ⟨rfl, rfl⟩ := ok_pair_inj.mp h
  exact ⟨s, rfl, hscan⟩

theorem skipSpace_of_nextKey_end (h : nextKey first cs = .ok (none, rest)) :
    skipSpace cs = '\x7d' :: rest := by
  unfold nextKey at h
  split at h
  · exact absurd h nofun
  · rename_i hfront
    obtain ⟨_, rfl⟩ := ok_pair_inj.mp h
    exact hfront
  · -- anything but a brace goes on with a key
    split at h
    · split at h
      · obtain ⟨s, hs, _⟩ := key_of_scan h
        exact absurd hs nofun
      · exact absurd h nofun
    · split at h
      · split at h
        · exact absurd h nofun
        · exact absurd h nofun
        · obtain ⟨s, hs, _⟩ := key_of_scan h
          exact absurd hs nofun
        · exact absurd h nofun
      · exact absurd h nofun

theorem skipSpace_of_nextKey_first {key : String} (h : nextKey true cs = .ok (some key, front)) :
    ∃ tail, skipSpace cs = '"' :: tail ∧ scanString tail = .ok (key, front) := by
  unfold nextKey at h
  split at h
  · exact absurd h nofun
  · exact absurd (congrArg (·.map Prod.fst) h) nofun
  · rename_i c tail _ hfront
    rw [if_pos rfl] at h
    split at h
    · rename_i hquote
      obtain ⟨s, hs, hscan⟩ := key_of_scan h
      obtain rfl := Option.some.inj hs
      exact ⟨tail, hquote ▸ hfront, hscan⟩
    · exact absurd h nofun

theorem skipSpace_of_nextKey_later {key : String} (h : nextKey false cs = .ok (some key, front)) :
    ∃ tail name, skipSpace cs = ',' :: tail ∧ skipSpace tail = '"' :: name ∧
      scanString name = .ok (key, front) := by
  unfold nextKey at h
  split at h
  · exact absurd h nofun
  · exact absurd (congrArg (·.map Prod.fst) h) nofun
  · rename_i c tail _ hfront
    rw [if_neg Bool.false_ne_true] at h
    split at h
    · rename_i hcomma
      split at h
      · exact absurd h nofun
      · exact absurd h nofun
      · rename_i name hquote
        obtain ⟨s, hs, hscan⟩ := key_of_scan h
        obtain rfl := Option.some.inj hs
        exact ⟨tail, name, hcomma ▸ hfront, hquote, hscan⟩
      · exact absurd h nofun
    · exact absurd h nofun

theorem length_nextKey_lt {key : String} (h : nextKey first cs = .ok (some key, front)) :
    front.length < cs.length := by
  cases first with
  | true =>
    obtain ⟨name, hquote, hscan⟩ := skipSpace_of_nextKey_first h
    exact Nat.lt_trans (length_skipString_lt (skipString_of_scanString hscan))
      (length_lt_of_skipSpace hquote)
  | false =>
    obtain ⟨tail, name, hcomma, hquote, hscan⟩ := skipSpace_of_nextKey_later h
    calc front.length < name.length := length_skipString_lt (skipString_of_scanString hscan)
      _ < tail.length := length_lt_of_skipSpace hquote
      _ < cs.length := length_lt_of_skipSpace hcomma

/-- A key is passed over with its colon. -/
theorem skipKey_of_scanString {name value : List Char} {key : String}
    (hquote : skipSpace cs = '"' :: name) (hscan : scanString name = .ok (key, front))
    (hcolon : colon front = .ok value) : skipKey cs = .ok value := by
  simp only [skipKey, hquote, skipString_of_scanString hscan, ok_bind, hcolon]

theorem SkippedMembers.skipMembers {members : List (String × List Char)}
    (h : SkippedMembers members first cs rest) (hfirst : first = false) {inner fuel : Nat}
    (hinner : cs.length ≤ inner) (hfuel : cs.length ≤ fuel) :
    skipMembers (skipNested inner) fuel cs = .ok rest := by
  induction h generalizing fuel with
  | done closed =>
    have hend := skipSpace_of_nextKey_end closed
    have hlt := length_lt_of_skipSpace hend
    cases fuel with
    | zero => exact absurd (Nat.lt_of_lt_of_le hlt hfuel) (Nat.not_lt_zero _)
    | succ fuel => simp only [Json.skipMembers, hend]
  | @member members first key cs front value behind rest next separated skipped others ih =>
    subst hfirst
    obtain ⟨tail, name, hcomma, hquote, hscan⟩ := skipSpace_of_nextKey_later next
    have hkey := skipKey_of_scanString hquote hscan separated
    have hlt := length_lt_of_skipSpace hcomma
    have hvalue := length_skipKey_lt hkey
    have hbehind := length_skipValue_lt skipped
    cases fuel with
    | zero => exact absurd (Nat.lt_of_lt_of_le hlt hfuel) (Nat.not_lt_zero _)
    | succ fuel =>
      have hskip : skipNested inner value = .ok behind :=
        skipNested_of_skipValue skipped (by omega)
      simp only [Json.skipMembers, hcomma, hkey, hskip, ok_bind]
      exact ih rfl (by omega) (by omega)

/-- An object is passed over if its members are. -/
theorem skipValue_object {members : List (String × List Char)}
    (hfront : skipSpace cs = '\x7b' :: front) (h : SkippedMembers members true front rest) :
    skipValue cs = .ok rest := by
  have hlt := length_lt_of_skipSpace hfront
  cases h with
  | done closed => simp only [skipValue, skipNested, hfront, skipSpace_of_nextKey_end closed]
  | @member _ _ key _ _ value behind _ next separated skipped others =>
    obtain ⟨name, hquote, hscan⟩ := skipSpace_of_nextKey_first next
    -- the space in front of the first key has been passed over already
    have hspace : skipSpace ('"' :: name) = '"' :: name := skipSpace_cons (by decide) name
    have hkey := skipKey_of_scanString hspace hscan separated
    have hle := length_skipSpace_le front
    rw [hquote] at hle
    have hvalue := length_skipKey_lt hkey
    have hbehind := length_skipValue_lt skipped
    have hskip : skipNested cs.length value = .ok behind :=
      skipNested_of_skipValue skipped (by omega)
    have hothers : skipMembers (skipNested cs.length) behind.length behind = .ok rest :=
      others.skipMembers rfl (by omega) (Nat.le_refl _)
    simp only [skipValue, skipNested, hfront, hquote]
    split
    · rename_i heq
      exact absurd heq nofun
    · rename_i heq
      exact absurd (List.cons.inj heq).1 (by decide)
    · rw [hkey, ok_bind, hskip, ok_bind, hothers]

end Objects

end RecipeClient.Json
