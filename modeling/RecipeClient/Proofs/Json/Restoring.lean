import RecipeClient.Json.Codec
import RecipeClient.Proofs.Dates
import RecipeClient.Proofs.Json.Values

/-!
# Codecs that restore what they read

A codec is lawful when every value that it reads is read again from what it writes for the value.
A compound needs room for the containers that it may write where it read none, such as the list
that stands for `null`; so a codec is lawful from some depth on, its height.

- `Lawful`: what a codec reads, it restores
- one lemma for each way of building a codec
-/

namespace RecipeClient.Json

/-! ## Layouts -/

namespace Value

/-- The value as it is written: as it stands, or with the members of its objects sorted. -/
def laidOut (sorting : Bool) (v : Value) : Value := if sorting then v.canonical else v

/-- A value in canonical form has one layout. -/
theorem laidOut_of_canonical {v : Value} (h : v.canonical = v) (sorting : Bool) :
    v.laidOut sorting = v := by
  cases sorting with
  | true => exact h
  | false => rfl

theorem laidOut_array (sorting : Bool) (items : List Value) :
    laidOut sorting (.array items) = .array (items.map (laidOut sorting)) := by
  cases sorting with
  | true => exact congrArg Value.array (canonicalItems_eq_map items)
  | false => exact congrArg Value.array (List.map_id _).symm

theorem laidOut_ne_null {v : Value} (h : v ≠ .null) (sorting : Bool) : v.laidOut sorting ≠ .null := by
  cases sorting with
  | true => cases v <;> first | exact absurd rfl h | exact Value.noConfusion
  | false => exact h

end Value

theorem skipSpace_chars (v : Value) (tail : List Char) :
    skipSpace (v.chars ++ tail) = v.chars ++ tail :=
  v.starts_chars.skipSpace_append tail

theorem skipSpace_skipSpace (cs : List Char) : skipSpace (skipSpace cs) = skipSpace cs := by
  induction cs with
  | nil => rfl
  | cons c cs ih =>
    cases hc : isSpace c with
    | true => simpa [skipSpace, hc] using ih
    | false => rw [skipSpace_cons hc, skipSpace_cons hc]

namespace Codec

variable {α : Type}

/-- What is written for the value is read as the value, in both layouts and whatever stands behind
it, as far as the doubles in it are read back. -/
def Restores (codec : Codec α) (depth : Nat) (a : α) : Prop :=
  (codec.write a).Faithful → ∀ sorting tail, Ends tail →
    codec.read depth (((codec.write a).laidOut sorting).chars ++ tail) = .ok (a, tail)

/-- Every value that is read from a depth on is restored there, and `null` is written only for
what was read as `null`. -/
structure Lawful (codec : Codec α) (height : Nat) : Prop where
  restores {depth : Nat} {cs rest : List Char} {a : α} : height ≤ depth →
    codec.read depth cs = .ok (a, rest) → codec.Restores depth a
  ne_null {depth : Nat} {cs rest : List Char} {a : α} : (skipSpace cs).head? ≠ some 'n' →
    codec.read depth cs = .ok (a, rest) → codec.write a ≠ .null

theorem Lawful.mono {codec : Codec α} {height higher : Nat} (h : codec.Lawful height)
    (hle : height ≤ higher) : codec.Lawful higher where
  restores hdepth := h.restores (Nat.le_trans hle hdepth)
  ne_null := h.ne_null

/-! ## Scalars -/

variable {depth height : Nat}

@[simp]
theorem restores_string (s : String) : Codec.string.Restores depth s := by
  intro _ sorting tail _
  rw [Value.laidOut_of_canonical rfl]
  simp only [Codec.string, Value.chars, stringChars_append]
  rw [readString, skipSpace_cons (by decide)]
  exact scanString_stringChars s tail

@[simp]
theorem lawful_string : Codec.string.Lawful height where
  restores _ _ := restores_string _
  ne_null _ _ := Value.noConfusion

@[simp]
theorem restores_boolean (b : Bool) : Codec.boolean.Restores depth b := by
  intro _ sorting tail _
  rw [Value.laidOut_of_canonical rfl]
  cases b with
  | true => rfl
  | false => rfl

@[simp]
theorem lawful_boolean : Codec.boolean.Lawful height where
  restores _ _ := restores_boolean _
  ne_null _ _ := Value.noConfusion

theorem readNumber_chars {n : Number} (h : n.ReadsBack) (expected : String) (depth : Nat)
    {tail : List Char} (ht : Ends tail) : readNumber expected depth (n.chars ++ tail) = .ok (n, tail) := by
  rcases h with ⟨cs, hchars, hread⟩ | ⟨c, cs, hchars, hc, hread⟩
  · rw [hchars, List.cons_append, readNumber, skipSpace_cons (by decide)]
    exact hread tail ht
  · have hminus : c ≠ '-' := by
      rintro rfl
      exact absurd hc (by decide)
    rw [hchars, List.cons_append, readNumber, skipSpace_cons (not_isSpace_of_isDigit hc)]
    simp only [hc, if_true]
    exact hread tail ht

theorem integerFits_toInt (i : Int64) : IntegerFits i.toInt := by
  have hlow := i.le_toInt
  have hhigh := i.toInt_lt
  have hbounds : ((Nat.pow 2 63 : Nat) : Int) = 2 ^ 63 ∧ (2 : Int) ^ 63 ≤ (Nat.pow 2 64 : Nat) := by
    decide
  unfold IntegerFits
  omega

theorem fitting?_toInt (i : Int64) : fitting? i.toInt = some i := by
  have hlow : Int64.minValue.toInt ≤ i.toInt := i.le_toInt
  rw [fitting?, if_pos ⟨hlow, i.toInt_le⟩, Int64.ofInt_toInt]

@[simp]
theorem restores_integer (i : Int64) : Codec.integer.Restores depth i := by
  intro _ sorting tail ht
  rw [Value.laidOut_of_canonical rfl]
  have hread :=
    readNumber_chars (Number.readsBack_integer (integerFits_toInt i)) "i64" depth ht
  simp only [Codec.integer, Value.chars, hread, ok_bind, fitting?_toInt]
  rfl

@[simp]
theorem lawful_integer : Codec.integer.Lawful height where
  restores _ _ := restores_integer _
  ne_null _ _ := Value.noConfusion

@[simp]
theorem restores_double (d : Double) : Codec.double.Restores depth d := by
  intro hfaithful sorting tail ht
  rw [Value.laidOut_of_canonical rfl]
  have hdouble : d.ReadsBack := hfaithful d (List.mem_singleton.mpr rfl)
  have hread := readNumber_chars (Number.readsBack_double hdouble) "f64" depth ht
  simp only [Codec.double, Value.chars, hread, ok_bind]
  rfl

@[simp]
theorem lawful_double : Codec.double.Lawful height where
  restores _ _ := restores_double _
  ne_null _ _ := Value.noConfusion

@[simp]
theorem restores_date (d : Date) : Codec.date.Restores depth d := by
  intro _ sorting tail ht
  rw [Value.laidOut_of_canonical rfl]
  simp only [Codec.date, Value.chars, stringChars_append]
  rw [readString, skipSpace_cons (by decide)]
  simp only [scanString_stringChars, ok_bind, Date.ofText_text]
  rfl

@[simp]
theorem lawful_date : Codec.date.Lawful height where
  restores _ _ := restores_date _
  ne_null _ _ := Value.noConfusion

theorem restores_any {v : Value} (hfits : v.Fits depth) : Codec.any.Restores depth v.canonical := by
  intro hfaithful sorting tail ht
  have hread := Value.read_chars hfits.canonical hfaithful ht
  -- a canonical value is written in one way
  have hlaid := Value.laidOut_of_canonical v.canonical_canonical sorting
  simp only [Codec.any, hlaid, hread, ok_bind, Value.canonical_canonical]
  rfl

@[simp]
theorem lawful_any : Codec.any.Lawful height where
  restores _ h := by
    obtain ⟨⟨v, rest⟩, hread, h⟩ := bind_eq_ok.mp h
    obtain ⟨rfl, rfl⟩ := ok_pair_inj.mp h
    exact restores_any (Value.fits_of_read hread)
  ne_null hhead h := by
    obtain ⟨⟨v, rest⟩, hread, h⟩ := bind_eq_ok.mp h
    obtain ⟨rfl, rfl⟩ := ok_pair_inj.mp h
    -- a value that is no `null` was not read from one
    have hnull : v ≠ .null := by
      rintro rfl
      exact hhead (Value.origin_of_read hread)
    exact Value.laidOut_ne_null hnull true

/-! ## Names -/

section Named

variable {values : List α} {name : α → String}

/-- A value that is found under its name is restored. -/
theorem restores_named {a : α}
    (h : (values.map fun a => (name a, a)).lookup (name a) = some a) :
    (named values name).Restores depth a := by
  intro _ sorting tail _
  rw [Value.laidOut_of_canonical rfl]
  simp only [named, Value.chars, stringChars_append]
  rw [readNamed, skipSpace_cons (by decide)]
  -- the name that is written is looked up again
  simp only [scanString_stringChars, ok_bind, readNamed.find, h]
  rfl

theorem name_of_lookup {a : α} {s : String}
    (h : (values.map fun a => (name a, a)).lookup s = some a) : name a = s := by
  induction values with
  | nil => exact absurd h (by simp)
  | cons b bs ih =>
    rw [List.map_cons, List.lookup_cons] at h
    split at h
    · rename_i heq
      rw [← Option.some.inj h]
      exact (eq_of_beq heq).symm
    · exact ih h

theorem lookup_of_find {a : α} {s : String} {named : List (String × α)}
    (h : readNamed.find named s = .ok a) : named.lookup s = some a := by
  unfold readNamed.find at h
  split at h
  · rename_i hlookup
    rw [hlookup, Except.ok.inj h]
  · exact absurd h (by simp)

theorem lookup_of_readNamed {named : List (String × α)} {cs rest : List Char} {a : α}
    (h : readNamed named depth cs = .ok (a, rest)) : ∃ s, named.lookup s = some a := by
  unfold readNamed at h
  split at h
  · exact absurd h (by simp)
  · obtain ⟨⟨s, _⟩, _, h⟩ := bind_eq_ok.mp h
    obtain ⟨b, hfind, h⟩ := bind_eq_ok.mp h
    obtain ⟨rfl, rfl⟩ := ok_pair_inj.mp h
    exact ⟨s, lookup_of_find hfind⟩
  · split at h
    · exact absurd h (by simp)
    · obtain ⟨⟨key, _⟩, _, h⟩ := bind_eq_ok.mp h
      -- the name may also be the one key of an object
      cases key with
      | none => exact absurd h (by simp)
      | some s =>
        obtain ⟨b, hfind, h⟩ := bind_eq_ok.mp h
        obtain ⟨_, _, h⟩ := bind_eq_ok.mp h
        obtain ⟨⟨_, _⟩, _, h⟩ := bind_eq_ok.mp h
        dsimp only at h
        split at h
        · exact absurd h (by simp)
        · obtain ⟨rfl, rfl⟩ := ok_pair_inj.mp h
          exact ⟨s, lookup_of_find hfind⟩
        · exact absurd h (by simp)
  · exact absurd h (by simp)

@[simp]
theorem lawful_named : (named values name).Lawful height where
  restores _ h := by
    obtain ⟨s, hlookup⟩ := lookup_of_readNamed h
    exact restores_named ((name_of_lookup hlookup).symm ▸ hlookup)
  ne_null _ _ := Value.noConfusion

end Named

/-! ## Optional values -/

variable {codec : Codec α}

theorem readOptional_of_null {reader : Reader α} {cs rest : List Char}
    (h : skipSpace cs = 'n' :: rest) :
    readOptional reader depth cs = word "ull".toList rest >>= fun rest => .ok (none, rest) := by
  rw [readOptional, h]
  rfl

theorem readOptional_of_head {reader : Reader α} {cs : List Char}
    (h : (skipSpace cs).head? ≠ some 'n') :
    readOptional reader depth cs =
      reader depth (skipSpace cs) >>= fun read => .ok (some read.1, read.2) := by
  unfold readOptional
  split
  · rename_i heq
    exact absurd (congrArg List.head? heq) h
  · rfl

/-- What a reader of optional values has read: `null`, or what its reader reads. -/
theorem readOptional_cases {reader : Reader α} {cs rest : List Char} {o : Option α}
    (h : readOptional reader depth cs = .ok (o, rest)) :
    ((skipSpace cs).head? = some 'n' ∧ o = none) ∨
      ((skipSpace (skipSpace cs)).head? ≠ some 'n' ∧
        ∃ a, o = some a ∧ reader depth (skipSpace cs) = .ok (a, rest)) := by
  -- the first character decides between `null` and a value
  by_cases hhead : (skipSpace cs).head? = some 'n'
  · obtain ⟨front, hfront⟩ := List.head?_eq_some_iff.mp hhead
    rw [readOptional_of_null hfront] at h
    obtain ⟨_, _, h⟩ := bind_eq_ok.mp h
    obtain ⟨rfl, rfl⟩ := ok_pair_inj.mp h
    exact Or.inl ⟨hhead, rfl⟩
  · rw [readOptional_of_head hhead] at h
    obtain ⟨⟨a, _⟩, hread, h⟩ := bind_eq_ok.mp h
    obtain ⟨rfl, rfl⟩ := ok_pair_inj.mp h
    exact Or.inr ⟨by rw [skipSpace_skipSpace]; exact hhead, a, rfl, hread⟩

theorem restores_none : codec.optional.Restores depth none := by
  intro _ sorting tail _
  rw [Value.laidOut_of_canonical rfl]
  rfl

theorem restores_some {a : α} (h : codec.Restores depth a) (hnull : codec.write a ≠ .null) :
    codec.optional.Restores depth (some a) := by
  intro hfaithful sorting tail ht
  have hread := h hfaithful sorting tail ht
  have hskip := skipSpace_chars ((codec.write a).laidOut sorting) tail
  -- the value is not written as `null`, so it does not start like it
  have hhead : (skipSpace (((codec.write a).laidOut sorting).chars ++ tail)).head? ≠ some 'n' := by
    have hne := Value.head?_chars_ne (Value.laidOut_ne_null hnull sorting)
    obtain ⟨c, cs, hchars, _⟩ := ((codec.write a).laidOut sorting).starts_chars
    rw [hskip, hchars]
    rw [hchars] at hne
    exact hne
  simp only [Codec.optional]
  rw [readOptional_of_head hhead, hskip, hread, ok_bind]

theorem Lawful.optional (h : codec.Lawful height) : codec.optional.Lawful height where
  restores hdepth hread := by
    rcases readOptional_cases hread with ⟨_, rfl⟩ | ⟨hhead, a, rfl, hinner⟩
    · exact restores_none
    · exact restores_some (h.restores hdepth hinner) (h.ne_null hhead hinner)
  ne_null hhead hread := by
    rcases readOptional_cases hread with ⟨hnull, _⟩ | ⟨hbehind, a, rfl, hinner⟩
    · exact absurd hnull hhead
    · exact h.ne_null hbehind hinner

/-! ## Lists -/

theorem restores_list {as : List α} (h : ∀ a ∈ as, codec.Restores depth a) :
    codec.list.Restores (depth + 1) as := by
  intro hfaithful sorting tail _
  -- every item is laid out on its own
  have hitems : ∀ a ∈ as, ∀ tail, Ends tail →
      codec.read depth (((codec.write a).laidOut sorting).chars ++ tail) = .ok (a, tail) :=
    fun a ha => h a ha (hfaithful.item (List.mem_map_of_mem ha)) sorting
  simp only [Codec.list, Value.laidOut_array, List.map_map, Value.chars]
  rw [List.cons_append, List.append_assoc, List.singleton_append, itemChars_append, readList,
    skipSpace_cons (by decide)]
  exact elements_written _ rfl hitems

/-- The items of a list were read one level further in. -/
theorem read_of_mem_readList {reader : Reader α} {cs rest : List Char} {as : List α}
    (h : readList reader depth cs = .ok (as, rest)) :
    ∃ inner, depth = inner + 1 ∧
      ∀ a ∈ as, ∃ front behind, reader inner front = .ok (a, behind) := by
  unfold readList at h
  split at h
  · exact absurd h (by simp)
  · cases depth with
    | zero => exact absurd h (by simp)
    | succ depth => exact ⟨depth, rfl, read_of_mem_elements h⟩
  · exact absurd h (by simp)

theorem restores_of_readList (h : codec.Lawful height) {cs rest : List Char} {as : List α}
    (hdepth : height + 1 ≤ depth) (hread : readList codec.read depth cs = .ok (as, rest)) :
    codec.list.Restores depth as := by
  obtain ⟨inner, rfl, hitems⟩ := read_of_mem_readList hread
  apply restores_list
  intro a ha
  obtain ⟨front, behind, ha⟩ := hitems a ha
  exact h.restores (Nat.le_of_succ_le_succ hdepth) ha

@[simp]
theorem Lawful.list (h : codec.Lawful height) : codec.list.Lawful (height + 1) where
  restores := restores_of_readList h
  ne_null _ _ := Value.noConfusion

theorem restores_listOrNull {as : List α} (h : codec.list.Restores depth as) :
    codec.listOrNull.Restores depth as := by
  intro hfaithful sorting tail ht
  have hread : readList codec.read depth _ = _ := h hfaithful sorting tail ht
  have hhead := Value.laidOut_array sorting (as.map codec.write)
  simp only [Codec.list, Codec.listOrNull, hhead] at hread ⊢
  rw [readOptional_of_head (by rw [skipSpace_chars]; exact fun h => absurd h (by simp [Value.chars])),
    skipSpace_chars, hread]
  rfl

theorem Lawful.listOrNull (h : codec.Lawful height) : codec.listOrNull.Lawful (height + 1) where
  restores {depth} _ _ _ hdepth hread := by
    obtain ⟨⟨o, _⟩, hoptional, hread⟩ := bind_eq_ok.mp hread
    obtain ⟨rfl, rfl⟩ := ok_pair_inj.mp hread
    refine restores_listOrNull ?_
    rcases readOptional_cases hoptional with ⟨_, rfl⟩ | ⟨_, as, rfl, hlist⟩
    · -- `null` was read, but a list is written, which takes a level
      cases depth with
      | zero => exact absurd hdepth (Nat.not_succ_le_zero _)
      | succ depth => exact restores_list fun a ha => absurd ha List.not_mem_nil
    · exact restores_of_readList h hdepth hlist
  ne_null _ _ := Value.noConfusion

/-! ## Whole texts -/

theorem ofText_eq_ok {text : String} {a : α} (h : codec.ofText text = .ok a) :
    ∃ rest, codec.read nestingLimit text.toList = .ok (a, rest) := by
  obtain ⟨⟨b, rest⟩, hread, h⟩ := bind_eq_ok.mp h
  obtain ⟨_, _, h⟩ := bind_eq_ok.mp h
  obtain rfl := pure_eq_ok.mp h
  exact ⟨rest, hread⟩

/-- A value that is restored is read from its whole text. -/
theorem Restores.ofText_text {a : α} (h : codec.Restores nestingLimit a)
    (hfaithful : (codec.write a).Faithful) (sorting : Bool) :
    codec.ofText ((codec.write a).laidOut sorting).text = .ok a := by
  have hread := h hfaithful sorting [] ends_nil
  rw [List.append_nil] at hread
  rw [ofText, Value.text, Reader.whole_ofList, hread, ok_bind]
  rfl

/-! ## Alternatives -/

/-- Alternatives are restored if what is written for a value is canonical, fits where the value was
read, and is the value again. -/
theorem lawful_alternatives {type : String} {ofValue? : Value → Option α} {write : α → Value}
    (h : ∀ {v a depth}, ofValue? v = some a → v.Fits depth →
      (write a).Fits depth ∧ (write a).canonical = write a ∧ ofValue? (write a) = some a)
    (hnull : ∀ a, write a ≠ .null) : (alternatives type ofValue? write).Lawful height where
  restores {depth} _ _ a _ hread := by
    obtain ⟨⟨v, _⟩, hvalue, hread⟩ := bind_eq_ok.mp hread
    dsimp only at hread
    split at hread
    · rename_i b hb
      obtain ⟨rfl, rfl⟩ := ok_pair_inj.mp hread
      -- the whole value is read first, so it is enough that it fits
      obtain ⟨hfits, hcanonical, hagain⟩ := h hb (Value.fits_of_read hvalue)
      intro hfaithful sorting tail ht
      have hwritten := Value.read_chars hfits hfaithful ht
      simp only [alternatives, Value.laidOut_of_canonical hcanonical, hwritten, ok_bind, hagain]
      rfl
    · exact absurd hread (by simp [throw, throwThe, MonadExceptOf.throw])
  ne_null _ _ := hnull _

end Codec

end RecipeClient.Json
