import RecipeClient.Proofs.Json.Canonical
import RecipeClient.Proofs.Json.Numbers

/-!
# Written values are read back

A value that was read has integers of at most 64 bits and is nested no deeper than the reader
allowed. Every such value is read back from its text, whatever stands behind it, if the doubles in
it are: reading a decimal is not always exact, so that is asked of each of them.

- `read_chars`: a value that fits is read back
- `fits_of_read`: what was read fits
-/

namespace RecipeClient

open Json

namespace Json

/-- A whole text is read character by character; a literal is given by its characters as well. -/
theorem Reader.whole_ofList {α : Type} (reader : Reader α) (cs : List Char) :
    reader.whole (String.ofList cs) = (do
      let (a, rest) ← reader nestingLimit cs
      finish rest
      return a) := by
  rw [Reader.whole, String.toList_ofList]

/-! ## Reading by the first character -/

section Reading

variable (depth : Nat) (cs : List Char)

theorem Value.read_null : Value.read depth ('n' :: 'u' :: 'l' :: 'l' :: cs) = .ok (.null, cs) := by
  cases depth <;> rfl

theorem Value.read_true :
    Value.read depth ('t' :: 'r' :: 'u' :: 'e' :: cs) = .ok (.boolean true, cs) := by
  cases depth <;> rfl

theorem Value.read_false :
    Value.read depth ('f' :: 'a' :: 'l' :: 's' :: 'e' :: cs) = .ok (.boolean false, cs) := by
  cases depth <;> rfl

theorem Value.read_minus :
    Value.read depth ('-' :: cs) =
      scanNumber true cs >>= fun read => .ok (.number read.1, read.2) := by
  cases depth <;> rfl

theorem Value.read_quote :
    Value.read depth ('"' :: cs) = scanString cs >>= fun read => .ok (.string read.1, read.2) := by
  cases depth <;> rfl

theorem Value.read_bracket :
    Value.read (depth + 1) ('[' :: cs) =
      elements (Value.read depth) (cs.length + 1) true cs >>=
        fun read => .ok (.array read.1, read.2) := rfl

theorem Value.read_brace :
    Value.read (depth + 1) ('\x7b' :: cs) =
      membersOf (Value.read depth) (cs.length + 1) true cs >>=
        fun read => .ok (.object read.1, read.2) := rfl

theorem Value.read_digit {c : Char} (h : c.isDigit = true) :
    Value.read depth (c :: cs) =
      scanNumber false (c :: cs) >>= fun read => .ok (.number read.1, read.2) := by
  rw [Value.read.eq_def]
  simp only [skipSpace_cons (not_isSpace_of_isDigit h)]
  split <;> rename_i heq
  · exact absurd heq (by simp)
  all_goals
    obtain ⟨rfl, rfl⟩ := List.cons.inj heq
    first
      | exact absurd h (by decide)
      | exact if_pos h

end Reading

/-- What the text in front of a value that was read looked like. -/
def Value.Origin (depth : Nat) (cs rest : List Char) : Value → Prop
  | .null => (skipSpace cs).head? = some 'n'
  | .boolean _ => True
  | .number n =>
    (∃ number, skipSpace cs = '-' :: number ∧ scanNumber true number = .ok (n, rest)) ∨
      ∃ c number, skipSpace cs = c :: number ∧ c.isDigit = true ∧
        scanNumber false (c :: number) = .ok (n, rest)
  | .string _ => True
  | .array items => ∃ inner list, depth = inner + 1 ∧
      elements (Value.read inner) (list.length + 1) true list = .ok (items, rest)
  | .object members => ∃ inner object, depth = inner + 1 ∧
      membersOf (Value.read inner) (object.length + 1) true object = .ok (members, rest)

/-- Every value that is read has an origin of its kind. -/
theorem Value.origin_of_read {depth : Nat} {cs rest : List Char} {v : Value}
    (h : Value.read depth cs = .ok (v, rest)) : v.Origin depth cs rest := by
  -- the first character decides the kind, so each case has one way to end
  rw [Value.read.eq_def] at h
  dsimp only at h
  split at h
  · exact absurd h (by simp)
  · rename_i hchars
    obtain ⟨_, _, h⟩ := bind_eq_ok.mp h
    obtain ⟨rfl, rfl⟩ := ok_pair_inj.mp h
    exact congrArg List.head? hchars
  · obtain ⟨_, _, h⟩ := bind_eq_ok.mp h
    obtain ⟨rfl, rfl⟩ := ok_pair_inj.mp h
    trivial
  · obtain ⟨_, _, h⟩ := bind_eq_ok.mp h
    obtain ⟨rfl, rfl⟩ := ok_pair_inj.mp h
    trivial
  · rename_i number hchars
    obtain ⟨_, hscan, h⟩ := bind_eq_ok.mp h
    obtain ⟨rfl, rfl⟩ := ok_pair_inj.mp h
    exact Or.inl ⟨number, hchars, hscan⟩
  · obtain ⟨_, _, h⟩ := bind_eq_ok.mp h
    obtain ⟨rfl, rfl⟩ := ok_pair_inj.mp h
    trivial
  · rename_i list _
    cases depth with
    | zero => exact absurd h (by simp)
    | succ inner =>
      -- a container takes one of the levels that are left
      obtain ⟨_, hitems, h⟩ := bind_eq_ok.mp h
      obtain ⟨rfl, rfl⟩ := ok_pair_inj.mp h
      exact ⟨inner, list, rfl, hitems⟩
  · rename_i object _
    cases depth with
    | zero => exact absurd h (by simp)
    | succ inner =>
      obtain ⟨_, hmembers, h⟩ := bind_eq_ok.mp h
      obtain ⟨rfl, rfl⟩ := ok_pair_inj.mp h
      exact ⟨inner, object, rfl, hmembers⟩
  · rename_i c number _ _ _ _ _ _ _ hchars
    split at h
    · rename_i hc
      obtain ⟨_, hscan, h⟩ := bind_eq_ok.mp h
      obtain ⟨rfl, rfl⟩ := ok_pair_inj.mp h
      exact Or.inr ⟨c, number, hchars, hc, hscan⟩
    · exact absurd h (by simp)

end Json

/-! ## Doubles -/

/-- The text of the double is read, to its end, as the same double. -/
def Double.ReadsBack (d : Double) : Prop :=
  Value.read nestingLimit d.text = .ok (.number (.double d), [])

/-- A double without a minus is read back if the number in its text is the double. -/
theorem Double.readsBack_of_scanNumber {d : Double} (hc : d.text.head?.any Char.isDigit = true)
    (h : scanNumber false d.text = .ok (.double d, [])) : d.ReadsBack := by
  unfold Double.ReadsBack
  cases htext : d.text with
  | nil => rw [htext] at hc; exact absurd hc Bool.false_ne_true
  | cons c cs =>
    rw [htext] at hc h
    rw [Value.read_digit _ _ hc, h, ok_bind]

namespace Json

namespace Number

theorem readsBack_of_read {n : Number} (hspace : skipSpace n.chars = n.chars)
    (h : Value.read nestingLimit n.chars = .ok (.number n, [])) : n.ReadsBack := by
  have horigin := Value.origin_of_read h
  -- the origin of a number is its text, with or without a minus
  simp only [Value.Origin, hspace] at horigin
  rcases horigin with ⟨number, hchars, hscan⟩ | ⟨c, number, hchars, hc, hscan⟩
  · exact .negative number hchars fun tail ht => scanNumber_append ht hscan
  · exact .positive c number hchars hc fun tail ht => scanNumber_append ht hscan

theorem readsBack_double {d : Double} (h : d.ReadsBack) : ReadsBack (.double d) := by
  refine readsBack_of_read ?_ h
  obtain ⟨c, cs, hchars, hc⟩ := starts_number (.double d)
  rw [hchars]
  exact skipSpace_cons (not_isSpace_of_isNumberChar hc) cs

end Number

/-! ## Items and members -/

/-- A text with a value in front that the reader of a list takes for the next item. -/
def Starts (cs : List Char) : Prop :=
  ∃ c rest, cs = c :: rest ∧ isSpace c = false ∧ c ≠ ']'

theorem Starts.ne_nil {cs : List Char} (h : Starts cs) : cs ≠ [] := by
  obtain ⟨c, rest, rfl, _⟩ := h
  exact List.cons_ne_nil c rest

theorem Starts.skipSpace_append {cs : List Char} (h : Starts cs) (tail : List Char) :
    skipSpace (cs ++ tail) = cs ++ tail := by
  obtain ⟨c, rest, rfl, hspace, _⟩ := h
  exact skipSpace_cons hspace _

theorem Value.starts_chars (v : Value) : Starts v.chars := by
  cases v with
  | null => exact ⟨'n', _, rfl, rfl, by decide⟩
  | boolean b =>
    cases b with
    | true => exact ⟨'t', _, rfl, rfl, by decide⟩
    | false => exact ⟨'f', _, rfl, rfl, by decide⟩
  | number n =>
    obtain ⟨c, cs, hchars, hc⟩ := n.starts_number
    exact ⟨c, cs, hchars, not_isSpace_of_isNumberChar hc, isNumberChar_ne hc rfl⟩
  | string s => exact ⟨'"', _, rfl, rfl, by decide⟩
  | array items => exact ⟨'[', _, rfl, rfl, by decide⟩
  | object members => exact ⟨'\x7b', _, rfl, rfl, by decide⟩

/-- Only `null` is written with an `n` in front. -/
theorem Value.head?_chars_ne {v : Value} (h : v ≠ .null) : v.chars.head? ≠ some 'n' := by
  cases v with
  | null => exact absurd rfl h
  | boolean b => cases b <;> exact fun h => absurd (Option.some.inj h) (by decide)
  | number n =>
    obtain ⟨c, cs, hchars, hc⟩ := n.starts_number
    rw [Value.chars, hchars]
    exact fun h => isNumberChar_ne hc rfl (Option.some.inj h)
  | string s => exact fun h => absurd (Option.some.inj h) (by decide)
  | array items => exact fun h => absurd (Option.some.inj h) (by decide)
  | object members => exact fun h => absurd (Option.some.inj h) (by decide)

/-- The items that are left of a written list, with its bracket and what stands behind it. -/
def itemsBehind (first : Bool) : List Value → List Char → List Char
  | [], tail => ']' :: tail
  | v :: vs, tail => (if first then [] else [',']) ++ (v.chars ++ itemsBehind false vs tail)

/-- The members that are left of a written object, with its brace and what stands behind it. -/
def membersBehind (first : Bool) : Entries → List Char → List Char
  | [], tail => '\x7d' :: tail
  | (k, v) :: rest, tail =>
    (if first then [] else [',']) ++
      (stringChars k ++ ':' :: (v.chars ++ membersBehind false rest tail))

theorem itemChars_append (items : List Value) (tail : List Char) :
    Value.itemChars items ++ ']' :: tail = itemsBehind true items tail := by
  cases items with
  | nil => rfl
  | cons v vs =>
    induction vs generalizing v with
    | nil => rfl
    | cons w vs ih =>
      have hnext := ih w
      -- only the first item has no comma in front
      rw [itemsBehind, if_pos rfl, List.nil_append] at hnext
      rw [Value.itemChars, List.append_assoc, List.cons_append, hnext, itemsBehind, itemsBehind]
      · rfl
      · simp

theorem memberChars_append (members : Entries) (tail : List Char) :
    Value.memberChars members ++ '\x7d' :: tail = membersBehind true members tail := by
  cases members with
  | nil => rfl
  | cons m ms =>
    induction ms generalizing m with
    | nil => simp [Value.memberChars, membersBehind]
    | cons n ms ih =>
      have hnext := ih n
      rw [membersBehind, if_pos rfl, List.nil_append] at hnext
      rw [Value.memberChars]
      · simp only [List.append_assoc, List.cons_append, hnext, membersBehind]
        rfl
      · simp

theorem length_lt_itemsBehind (first : Bool) (items : List Value) (tail : List Char) :
    items.length < (itemsBehind first items tail).length := by
  induction items generalizing first with
  | nil => simp [itemsBehind]
  | cons v vs ih =>
    have hv := List.length_pos_iff.mpr v.starts_chars.ne_nil
    have hvs := ih false
    simp only [itemsBehind, List.length_append, List.length_cons]
    omega

theorem length_lt_membersBehind (first : Bool) (members : Entries) (tail : List Char) :
    members.length < (membersBehind first members tail).length := by
  induction members generalizing first with
  | nil => simp [membersBehind]
  | cons m ms ih =>
    have hms := ih false
    simp only [membersBehind, List.length_append, List.length_cons]
    omega

theorem ends_itemsBehind (items : List Value) (tail : List Char) :
    Ends (itemsBehind false items tail) := by
  cases items with
  | nil => exact ends_cons (by decide)
  | cons v vs => exact ends_cons (by decide)

theorem ends_membersBehind (members : Entries) (tail : List Char) :
    Ends (membersBehind false members tail) := by
  cases members with
  | nil => exact ends_cons (by decide)
  | cons m ms => exact ends_cons (by decide)

theorem nextElement_itemsBehind_cons (first : Bool) (v : Value) (vs : List Value)
    (tail : List Char) :
    nextElement first (itemsBehind first (v :: vs) tail) =
      .ok (true, v.chars ++ itemsBehind false vs tail) := by
  have hskip := v.starts_chars.skipSpace_append (itemsBehind false vs tail)
  obtain ⟨c, rest, hchars, _, hbracket⟩ := v.starts_chars
  rw [hchars] at hskip
  cases first with
  | true =>
    simp only [itemsBehind, if_pos, List.nil_append, hchars]
    rw [nextElement, hskip]
    simp
  -- behind the comma the bracket would be one too many, but a value starts otherwise
  | false =>
    have hcomma (cs : List Char) : skipSpace (',' :: cs) = ',' :: cs :=
      skipSpace_cons (by decide) cs
    simp only [itemsBehind, Bool.false_eq_true, if_false, List.cons_append, List.nil_append, hchars]
    rw [nextElement, hcomma]
    simp only [List.cons_append] at hskip
    simp [hskip, hbracket]

theorem nextKey_membersBehind_nil (first : Bool) (tail : List Char) :
    nextKey first (membersBehind first [] tail) = .ok (none, tail) := rfl

theorem nextKey_first (cs : List Char) :
    nextKey true ('"' :: cs) = scanString cs >>= fun read => .ok (some read.1, read.2) := rfl

theorem nextKey_next (cs : List Char) :
    nextKey false (',' :: '"' :: cs) = scanString cs >>= fun read => .ok (some read.1, read.2) :=
  rfl

theorem nextKey_membersBehind_cons (first : Bool) (k : String) (v : Value) (rest : Entries)
    (tail : List Char) :
    nextKey first (membersBehind first ((k, v) :: rest) tail) =
      .ok (some k, ':' :: (v.chars ++ membersBehind false rest tail)) := by
  cases first with
  | true =>
    rw [membersBehind, if_pos rfl, List.nil_append, stringChars_append, nextKey_first,
      scanString_stringChars, ok_bind]
  | false =>
    rw [membersBehind, if_neg Bool.false_ne_true, List.singleton_append, stringChars_append,
      nextKey_next, scanString_stringChars, ok_bind]

theorem colon_cons (cs : List Char) : colon (':' :: cs) = .ok cs := rfl

/-- Written items are read back one by one. -/
theorem elements_itemsBehind {α : Type} {step : Step α} {as : List α} {tail : List Char}
    (spell : α → Value)
    (h : ∀ a ∈ as, ∀ tail, Ends tail → step ((spell a).chars ++ tail) = .ok (a, tail))
    (first : Bool) {fuel : Nat} (hfuel : as.length < fuel) :
    elements step fuel first (itemsBehind first (as.map spell) tail) = .ok (as, tail) := by
  induction as generalizing first fuel with
  | nil =>
    cases fuel with
    | zero => exact absurd hfuel (Nat.not_lt_zero _)
    | succ fuel => rfl
  | cons a as ih =>
    cases fuel with
    | zero => exact absurd hfuel (Nat.not_lt_zero _)
    | succ fuel =>
      -- what stands behind an item is the rest of the list, which ends a value
      have hread := h a (List.mem_cons_self ..)
      have hrest := ih (fun b hb => h b (List.mem_cons_of_mem _ hb)) false
        (Nat.lt_of_succ_lt_succ hfuel)
      rw [List.map_cons, elements, nextElement_itemsBehind_cons, ok_bind]
      simp only [hread _ (ends_itemsBehind _ _), ok_bind, hrest]
      rfl

/-- A written list is read back behind its bracket. -/
theorem elements_written {α : Type} {step : Step α} {as : List α} {items : List Value}
    {tail : List Char} (spell : α → Value) (hitems : as.map spell = items)
    (h : ∀ a ∈ as, ∀ tail, Ends tail → step ((spell a).chars ++ tail) = .ok (a, tail)) :
    elements step ((itemsBehind true items tail).length + 1) true (itemsBehind true items tail) =
      .ok (as, tail) := by
  -- the text is longer than the list, so the fuel suffices
  have hlength := length_lt_itemsBehind true items tail
  subst hitems
  rw [List.length_map] at hlength
  exact elements_itemsBehind spell h true (Nat.lt_succ_of_lt hlength)

/-- Written members are read back one by one. -/
theorem membersOf_membersBehind {step : Step Value} {members : Entries} {tail : List Char}
    (h : ∀ m ∈ members, ∀ tail, Ends tail → step (m.2.chars ++ tail) = .ok (m.2, tail))
    (first : Bool) {fuel : Nat} (hfuel : members.length < fuel) :
    membersOf step fuel first (membersBehind first members tail) = .ok (members, tail) := by
  induction members generalizing first fuel with
  | nil =>
    cases fuel with
    | zero => exact absurd hfuel (Nat.not_lt_zero _)
    | succ fuel => rfl
  | cons m ms ih =>
    cases fuel with
    | zero => exact absurd hfuel (Nat.not_lt_zero _)
    | succ fuel =>
      obtain ⟨k, v⟩ := m
      have hread := h (k, v) (List.mem_cons_self ..)
      have hrest := ih (fun n hn => h n (List.mem_cons_of_mem _ hn)) false
        (Nat.lt_of_succ_lt_succ hfuel)
      rw [membersOf, nextKey_membersBehind_cons, ok_bind]
      simp only [colon_cons, ok_bind, hread _ (ends_membersBehind _ _), hrest]
      rfl

/-! ## Values that fit -/

/-- The value is nested no deeper than the depth, and its integers are ones that are read. -/
inductive Value.Fits : Nat → Value → Prop where
  | null (depth : Nat) : Fits depth .null
  | boolean (depth : Nat) (b : Bool) : Fits depth (.boolean b)
  | integer (depth : Nat) {i : Int} (h : IntegerFits i) : Fits depth (.number (.integer i))
  | double (depth : Nat) (d : Double) : Fits depth (.number (.double d))
  | string (depth : Nat) (s : String) : Fits depth (.string s)
  | array {depth : Nat} {items : List Value} (h : ∀ v ∈ items, Fits depth v) :
      Fits (depth + 1) (.array items)
  | object {depth : Nat} {members : Entries} (h : ∀ m ∈ members, Fits depth m.2) :
      Fits (depth + 1) (.object members)

theorem read_of_mem_elements {α : Type} {step : Step α} {fuel : Nat} {first : Bool}
    {cs rest : List Char} {as : List α} (h : elements step fuel first cs = .ok (as, rest)) :
    ∀ a ∈ as, ∃ front behind, step front = .ok (a, behind) := by
  induction fuel generalizing first cs as with
  | zero => exact absurd h (by simp [elements])
  | succ fuel ih =>
    obtain ⟨⟨more, front⟩, _, h⟩ := bind_eq_ok.mp h
    cases more with
    | false =>
      obtain ⟨rfl, rfl⟩ := ok_pair_inj.mp h
      simp
    | true =>
      obtain ⟨⟨a, behind⟩, ha, h⟩ := bind_eq_ok.mp h
      obtain ⟨⟨as, last⟩, has, h⟩ := bind_eq_ok.mp h
      obtain ⟨rfl, rfl⟩ := ok_pair_inj.mp h
      intro b hb
      rcases List.mem_cons.mp hb with rfl | hb
      · exact ⟨front, behind, ha⟩
      · exact ih has b hb

theorem read_of_mem_membersOf {α : Type} {step : Step α} {fuel : Nat} {first : Bool}
    {cs rest : List Char} {ms : List (String × α)}
    (h : membersOf step fuel first cs = .ok (ms, rest)) :
    ∀ m ∈ ms, ∃ front behind, step front = .ok (m.2, behind) := by
  induction fuel generalizing first cs ms with
  | zero => exact absurd h (by simp [membersOf])
  | succ fuel ih =>
    obtain ⟨⟨key, front⟩, _, h⟩ := bind_eq_ok.mp h
    cases key with
    | none =>
      obtain ⟨rfl, rfl⟩ := ok_pair_inj.mp h
      simp
    | some key =>
      obtain ⟨front, _, h⟩ := bind_eq_ok.mp h
      obtain ⟨⟨a, behind⟩, ha, h⟩ := bind_eq_ok.mp h
      obtain ⟨⟨ms, last⟩, hms, h⟩ := bind_eq_ok.mp h
      obtain ⟨rfl, rfl⟩ := ok_pair_inj.mp h
      intro n hn
      rcases List.mem_cons.mp hn with rfl | hn
      · exact ⟨front, behind, ha⟩
      · exact ih hms n hn

namespace Value

theorem fits_number {depth : Nat} {negative : Bool} {cs rest : List Char} {n : Number}
    (h : scanNumber negative cs = .ok (n, rest)) : Fits depth (.number n) := by
  obtain ⟨⟨l, _⟩, _, h⟩ := bind_eq_ok.mp h
  obtain ⟨m, hm, h⟩ := bind_eq_ok.mp h
  obtain ⟨rfl, rfl⟩ := ok_pair_inj.mp h
  -- a double always fits, an integer because it was read as one
  cases m with
  | integer i => exact .integer depth (Literal.fits_of_number hm)
  | double d => exact .double depth d

/-- A value that was read fits. -/
theorem fits_of_read {depth : Nat} {cs rest : List Char} {v : Value}
    (h : Value.read depth cs = .ok (v, rest)) : v.Fits depth := by
  induction v using Value.induction generalizing depth cs rest with
  | null => exact .null depth
  | boolean b => exact .boolean depth b
  | number n =>
    rcases origin_of_read h with ⟨number, _, hscan⟩ | ⟨c, number, _, _, hscan⟩
    · exact fits_number hscan
    · exact fits_number hscan
  | string s => exact .string depth s
  | array items ih =>
    -- the items were read one level further in
    obtain ⟨inner, list, rfl, hitems⟩ := origin_of_read h
    apply Fits.array
    intro v hv
    obtain ⟨front, behind, hread⟩ := read_of_mem_elements hitems v hv
    exact ih v hv hread
  | object members ih =>
    obtain ⟨inner, object, rfl, hmembers⟩ := origin_of_read h
    apply Fits.object
    intro m hm
    obtain ⟨front, behind, hread⟩ := read_of_mem_membersOf hmembers m hm
    exact ih m hm hread

theorem Fits.mono {depth deeper : Nat} {v : Value} (h : v.Fits depth) (hle : depth ≤ deeper) :
    v.Fits deeper := by
  induction h generalizing deeper with
  | null depth => exact .null deeper
  | boolean depth b => exact .boolean deeper b
  | integer depth h => exact .integer deeper h
  | double depth d => exact .double deeper d
  | string depth s => exact .string deeper s
  | array _ ih =>
    obtain ⟨inner, rfl⟩ := Nat.exists_eq_add_of_le' (Nat.le_of_add_left_le hle)
    exact .array fun v hv => ih v hv (Nat.le_of_succ_le_succ hle)
  | object _ ih =>
    obtain ⟨inner, rfl⟩ := Nat.exists_eq_add_of_le' (Nat.le_of_add_left_le hle)
    exact .object fun m hm => ih m hm (Nat.le_of_succ_le_succ hle)

/-- A value still fits in canonical form. -/
theorem Fits.canonical {depth : Nat} {v : Value} (h : v.Fits depth) : v.canonical.Fits depth := by
  induction h with
  | null depth => exact .null depth
  | boolean depth b => exact .boolean depth b
  | integer depth h => exact .integer depth h
  | double depth d => exact .double depth d
  | string depth s => exact .string depth s
  | array _ ih =>
    rw [Value.canonical, canonicalItems_eq_map]
    apply Fits.array
    intro v hv
    obtain ⟨w, hw, rfl⟩ := List.mem_map.mp hv
    exact ih w hw
  | object _ ih =>
    rw [Value.canonical, canonicalMembers_eq_map]
    apply Fits.object
    intro m hm
    obtain ⟨n, hn, rfl⟩ := List.mem_map.mp (Entries.mem_of_mem_sorted hm)
    exact ih n hn

/-! ## Reading back -/

mutual

/-- The doubles in a value, in order. -/
def doubles : Value → List Double
  | .number (.double d) => [d]
  | .array items => itemDoubles items
  | .object members => memberDoubles members
  | _ => []

/-- The doubles in items. -/
def itemDoubles : List Value → List Double
  | [] => []
  | v :: vs => doubles v ++ itemDoubles vs

/-- The doubles in members. -/
def memberDoubles : List (String × Value) → List Double
  | [] => []
  | (_, v) :: rest => doubles v ++ memberDoubles rest

end

theorem mem_itemDoubles {items : List Value} {v : Value} {d : Double} (hv : v ∈ items)
    (hd : d ∈ v.doubles) : d ∈ itemDoubles items := by
  induction items with
  | nil => exact absurd hv List.not_mem_nil
  | cons w ws ih =>
    rcases List.mem_cons.mp hv with rfl | hv
    · exact List.mem_append_left _ hd
    · exact List.mem_append_right _ (ih hv)

theorem mem_memberDoubles {members : Entries} {m : String × Value} {d : Double}
    (hm : m ∈ members) (hd : d ∈ m.2.doubles) : d ∈ memberDoubles members := by
  induction members with
  | nil => exact absurd hm List.not_mem_nil
  | cons n ns ih =>
    rcases List.mem_cons.mp hm with rfl | hm
    · exact List.mem_append_left _ hd
    · exact List.mem_append_right _ (ih hm)

/-- Every double in the value is read back from its text. -/
def Faithful (v : Value) : Prop := ∀ d ∈ v.doubles, d.ReadsBack

/-- Doubles without a minus whose texts are scanned as them are read back. -/
theorem faithful_of_all {v : Value} (h : v.doubles.all fun d => d.text.head?.any Char.isDigit &&
    decide ((scanNumber false d.text).toOption = some (.double d, []))) : v.Faithful := by
  intro d hd
  obtain ⟨hdigit, hscan⟩ := Bool.and_eq_true_iff.mp (List.all_eq_true.mp h d hd)
  exact Double.readsBack_of_scanNumber hdigit (ok_of_toOption (of_decide_eq_true hscan))

theorem Faithful.item {items : List Value} (h : Faithful (.array items)) {v : Value}
    (hv : v ∈ items) : v.Faithful :=
  fun d hd => h d (mem_itemDoubles hv hd)

theorem Faithful.array {items : List Value} (h : ∀ v ∈ items, v.Faithful) :
    Faithful (.array items) := by
  induction items with
  | nil => exact nofun
  | cons v vs ih =>
    obtain ⟨hv, hvs⟩ := List.forall_mem_cons.mp h
    intro d hd
    rcases List.mem_append.mp hd with hd | hd
    · exact hv d hd
    · exact ih hvs d hd

theorem Faithful.member {members : Entries} (h : Faithful (.object members)) {m : String × Value}
    (hm : m ∈ members) : m.2.Faithful :=
  fun d hd => h d (mem_memberDoubles hm hd)

theorem Faithful.readsBack {n : Number} {depth : Nat} (h : Faithful (.number n))
    (hfits : Fits depth (.number n)) : n.ReadsBack := by
  -- integers are read back because they fit, doubles because they are faithful
  cases hfits with
  | integer _ hi => exact Number.readsBack_integer hi
  | double _ d => exact Number.readsBack_double (h d (List.mem_singleton.mpr rfl))

theorem read_number {n : Number} (h : n.ReadsBack) (depth : Nat) {tail : List Char}
    (ht : Ends tail) : Value.read depth (n.chars ++ tail) = .ok (.number n, tail) := by
  rcases h with ⟨cs, hchars, hread⟩ | ⟨c, cs, hchars, hc, hread⟩
  · rw [hchars, List.cons_append, read_minus, hread tail ht, ok_bind]
  · rw [hchars, List.cons_append, read_digit _ _ hc, ← List.cons_append, hread tail ht, ok_bind]

/-- A value that fits and has faithful doubles is read back, whatever stands behind it. -/
theorem read_chars {depth : Nat} {v : Value} (hfits : v.Fits depth) (h : v.Faithful)
    {tail : List Char} (ht : Ends tail) :
    Value.read depth (v.chars ++ tail) = .ok (v, tail) := by
  induction hfits generalizing tail with
  | null depth => exact read_null depth tail
  | boolean depth b =>
    cases b with
    | true => exact read_true depth tail
    | false => exact read_false depth tail
  | integer depth hi => exact read_number (Number.readsBack_integer hi) depth ht
  | double depth d => exact read_number (h.readsBack (.double depth d)) depth ht
  | string depth s =>
    rw [chars, stringChars_append, read_quote, scanString_stringChars, ok_bind]
  | array hitems ih =>
    rename_i depth items
    -- the list is read item by item, each in front of the ones behind it
    rw [chars, List.cons_append, List.append_assoc, List.singleton_append, itemChars_append,
      read_bracket]
    rw [elements_written id (List.map_id _) (fun v hv tail => ih v hv (h.item hv)), ok_bind]
  | object hmembers ih =>
    rename_i depth members
    rw [chars, List.cons_append, List.append_assoc, List.singleton_append, memberChars_append,
      read_brace, membersOf_membersBehind (fun m hm tail => ih m hm (h.member hm)) true
        (Nat.lt_succ_of_lt (length_lt_membersBehind ..)), ok_bind]

/-- A value in a text is taken in canonical form. -/
theorem canonical_of_ofText {text : String} {v : Value} (h : Value.ofText text = .ok v) :
    v.canonical = v := by
  obtain ⟨raw, -, rfl⟩ := map_eq_ok.mp h
  exact raw.canonical_canonical

/-- What is read is a value if it is found to be the same. -/
theorem eq_ok_of_same {ε : Type} {x : Except ε Value} {v : Value}
    (h : x.toOption.any (·.same v) = true) : x = .ok v := by
  obtain ⟨w, hw, hsame⟩ := (Option.any_eq_true _ _).mp h
  rw [ok_of_toOption hw, eq_of_same hsame]

end Value

end Json

end RecipeClient
