import RecipeClient.Proofs.Json.WrittenRecords

/-!
# Records within texts

A record may be the whole of a text, or it may belong to another record that is given as an object
or as a list. In each case the text is read as before when the text of the record is exchanged for
another one that is read as the same record.

- `Place.Exchanges`: two texts that differ in what stands at a place
- `Codec.ReadsAt`: texts that have a record at a place
- `Record.readsAt_whole`, `Record.readsAt_within`: the places where records stand
-/

namespace RecipeClient.Json

open Codec Record

/-! ## Places in a text -/

/-- The text starts with a brace. -/
def Braced (cs : List Char) : Prop := ∃ front, skipSpace cs = '\x7b' :: front

theorem SpellsObject.braced {cs : List Char} {ws : List WrittenMember} (h : SpellsObject cs ws) :
    Braced cs := by
  obtain ⟨before, gap, after, rfl, hbefore, -⟩ := h
  exact ⟨_, skipSpace_token hbefore (by decide) _⟩

/-- Where a record stands in a text: it is the whole text, or another record has it under a key,
and at an index if the other one is given as a list. -/
inductive Place where
  | whole
  | within (key : String) (index : Nat)

namespace Place

/-- How many containers may stand within one another in an item of a list, if the list belongs to a
record at the place. -/
def depth : Place → Nat
  | whole => nestingLimit - 2
  | within _ _ => nestingLimit - 3

/-- Two texts that have one value each at the place and are the same but for these. -/
inductive Exchanges : Place → List Char → List Char → List Char → List Char → Prop where
  | whole (value other : List Char) : Exchanges .whole value other value other
  | member {key : String} {index : Nat} {cs cs' : List Char} {front back : List WrittenMember}
      {w w' : WrittenMember} (old : SpellsObject cs (front ++ w :: back)) (key_eq : w.key = key)
      (new : SpellsObject cs' (front ++ w' :: back)) (key_eq' : w'.key = key) :
      Exchanges (.within key index) w.value w'.value cs cs'
  | item {key : String} {index : Nat} {cs cs' : List Char} {front back : List WrittenValue}
      {w w' : WrittenValue} (old : SpellsList cs (front ++ w :: back))
      (new : SpellsList cs' (front ++ w' :: back)) (index_eq : front.length = index) :
      Exchanges (.within key index) w.value w'.value cs cs'

/-- The text has the value at the place. -/
def Holds (place : Place) (value cs : List Char) : Prop := place.Exchanges value value cs cs

theorem Exchanges.passed {place : Place} {value value' cs cs' : List Char}
    (h : place.Exchanges value value' cs cs') (hcs : Passed cs) : Passed value := by
  cases h with
  | whole => exact hcs
  | member => exact WrittenValue.passed _
  | item => exact WrittenValue.passed _

end Place

/-- The texts that the codec reads may have a record at the place, and are read as the same value
when an object there is exchanged for one that is read as the same record. -/
structure Codec.ReadsAt {α σ : Type} (codec : Codec α) (place : Place) (r : Record σ)
    (held : α → Option σ) : Prop where
  found {text : String} {a : α} : codec.ofText text = .ok a → (held a).isSome = true →
    ∃ value, place.Holds value text.toList
  exchanged {text text' : String} {a : α} {value value' : List Char} :
    codec.ofText text = .ok a → place.Exchanges value value' text.toList text'.toList →
    Braced value → Braced value' → Passed value' →
    ∃ s, Step.Reads (r.read (place.depth + 2)) value s ∧
      (Step.Reads (r.read (place.depth + 2)) value' s → codec.ofText text' = .ok a)

/-- What the member reads from an object is a record that is held. -/
structure Member.Carries {ρ σ : Type} (m : Member ρ) (r : Record σ) (held : ρ → Option σ) :
    Prop where
  missing {a : ρ} : m.absence.inObject? = some (m.get a) → held a = none
  reads {depth : Nat} {cs : List Char} {a : ρ} : Braced cs →
    (m.Reads depth cs (m.get a) ↔ ∃ s, held a = some s ∧ Step.Reads (r.read depth) cs s)

namespace Member

variable {ρ σ : Type} {name : String} {r : Record σ}

theorem carries_required {get : ρ → σ} {set : ρ → σ → ρ} :
    (required name r.codec get set).Carries r fun a => some (get a) where
  missing h := by cases h
  reads _ := by
    constructor
    · intro h
      exact ⟨_, rfl, h⟩
    · rintro ⟨s, hs, h⟩
      obtain rfl := Option.some.inj hs
      exact h

theorem carries_optional {get : ρ → Option σ} {set : ρ → Option σ → ρ} :
    (optional name r.codec get set).Carries r get where
  missing h := (Option.some.inj h).symm
  reads := by
    rintro depth cs a ⟨front, hfront⟩
    have hhead : (skipSpace cs).head? ≠ some 'n' := by
      rw [hfront]
      simp
    have hread : ∀ {o rest}, readOptional r.read depth cs = .ok (o, rest) ↔
        ∃ s, o = some s ∧ r.read depth cs = .ok (s, rest) :=
      readOptional_iff (r.read_skipSpace depth cs) hhead
    constructor
    · rintro ⟨rest, h⟩
      obtain ⟨s, hs, h⟩ := hread.mp h
      exact ⟨s, hs, rest, h⟩
    · rintro ⟨s, hs, rest, h⟩
      exact ⟨rest, hread.mpr ⟨s, hs, h⟩⟩

end Member

namespace Record

variable {ρ σ : Type} {o : Record ρ} {r : Record σ} {height : Nat}

/-- A text that is read as a record has it as a whole. -/
theorem readsAt_whole (hskips : r.codec.Skips) : r.codec.ReadsAt .whole r some where
  found _ _ := ⟨_, .whole _ _⟩
  exchanged := by
    intro text text' a value value' h hexchange _ _ hpassed
    cases hexchange with
    | whole => exact ⟨a, Codec.ofText_eq_ok h, (Codec.ofText_iff_reads hskips hpassed).mpr⟩

section Within

variable (ho : o.Lawful height) (hskips : ∀ m ∈ o.members, m.Skips)
  (hlocal : ∀ m ∈ o.members, m.Local) {text text' : String} {a : ρ}
include ho hskips hlocal

theorem ofText_object_members_iff {ws : List WrittenMember} (h : SpellsObject text.toList ws) :
    o.codec.ofText text = .ok a ↔ o.MadeOf (nestingLimit - 1) (ws.map (·.entry)) a := by
  rw [Codec.ofText_iff_reads (Record.skips hskips) h.passed]
  exact reads_object_iff hskips hlocal ho h

theorem ofText_list_items_iff (hclosed : o.remainder = none) {ws : List WrittenValue}
    (h : SpellsList text.toList ws) :
    o.codec.ofText text = .ok a ↔ o.MadeOfItems (nestingLimit - 1) (valueTexts ws) a := by
  rw [Codec.ofText_iff_reads (Record.skips hskips) h.passed]
  exact reads_list_iff hskips hlocal ho hclosed h

variable (hclosed : o.remainder = none) {m : Member ρ} {index : Nat}
  (hm : o.members[index]? = some m)
include hclosed hm

/-- A member that has more than the value of a missing one stands in the text. -/
theorem exists_holds (h : o.codec.ofText text = .ok a)
    (hthere : m.absence.inObject? ≠ some (m.get a)) :
    ∃ value, (Place.within m.name index).Holds value text.toList := by
  have hmem := List.mem_of_getElem? hm
  rcases spelled_of_ofText hskips ho h with ⟨ws, hws⟩ | ⟨-, ws, hws⟩
  · have hmade := (ofText_object_members_iff ho hskips hlocal hws).mp h
    by_cases hex : ∃ w ∈ ws, w.key = m.name
    · obtain ⟨w, hw, hkey⟩ := hex
      obtain ⟨front, back, rfl⟩ := List.append_of_mem hw
      exact ⟨w.value, .member hws hkey hws hkey⟩
    · refine absurd (hmade.missing m hmem ?_) hthere
      intro value hvalue
      obtain ⟨w, hw, heq⟩ := List.mem_map.mp hvalue
      exact hex ⟨w, hw, congrArg Prod.fst heq⟩
  · have hmade := (ofText_list_items_iff ho hskips hlocal hclosed hws).mp h
    have hgives := hmade.gives index m hm
    rw [valueTexts, List.getElem?_map] at hgives
    cases hw : ws[index]? with
    | none =>
      rw [hw] at hgives
      exact absurd (Member.inObject?_of_inList? hgives) hthere
    | some w =>
      obtain ⟨hindex, rfl⟩ := List.getElem?_eq_some_iff.mp hw
      have hsplit : ws = ws.take index ++ ws[index] :: ws.drop (index + 1) := by
        rw [← List.drop_eq_getElem_cons hindex, List.take_append_drop]
      have hlength := List.length_take_of_le (Nat.le_of_lt hindex)
      rw [hsplit] at hws
      exact ⟨_, .item hws hws hlength⟩

/-- A record is read from a text with another value at the place if the member reads that one as
the value that it has. -/
theorem ofText_exchanged {value value' : List Char}
    (hexchange : (Place.within m.name index).Exchanges value value' text.toList text'.toList)
    (h : o.codec.ofText text = .ok a) : m.Reads (nestingLimit - 1) value (m.get a) ∧
      (m.Reads (nestingLimit - 1) value' (m.get a) → o.codec.ofText text' = .ok a) := by
  have hmem := List.mem_of_getElem? hm
  cases hexchange with
  | @member _ _ _ _ front back w w' old key_eq new key_eq' =>
    have hmade := (ofText_object_members_iff ho hskips hlocal old).mp h
    constructor
    · apply hmade.present m hmem w.value
      exact List.mem_map.mpr ⟨w, by simp, by rw [← key_eq]; rfl⟩
    · intro hread
      refine (ofText_object_members_iff ho hskips hlocal new).mpr (hmade.of_forall₂ ?_ ?_)
      · rw [List.forall₂_map_left_iff, List.forall₂_map_right_iff]
        refine List.rel_append (List.forall₂_same.mpr fun u _ => ⟨rfl, fun _ _ _ => id⟩)
          (.cons ⟨key_eq'.trans key_eq.symm, ?_⟩
            (List.forall₂_same.mpr fun u _ => ⟨rfl, fun _ _ _ => id⟩))
        -- only one member has the name
        intro k hk hname _
        obtain rfl := List.inj_on_of_nodup_map ho.names hk hmem (hname.trans key_eq)
        exact hread
      · intro hkeeps
        rw [hclosed] at hkeeps
        cases hkeeps
  | @item _ _ _ _ front back w w' old new index_eq =>
    have hmade := (ofText_list_items_iff ho hskips hlocal hclosed old).mp h
    have hold : (valueTexts (front ++ w :: back))[index]? = some w.value := by
      simp [valueTexts, ← index_eq]
    constructor
    · have hgives := hmade.gives index m hm
      rwa [hold] at hgives
    · intro hread
      refine (ofText_list_items_iff ho hskips hlocal hclosed new).mpr (hmade.of_items ?_ ?_)
      · simp [valueTexts]
      · intro i k text other hk htext hother hreads
        have hset : valueTexts (front ++ w' :: back) =
            (valueTexts (front ++ w :: back)).set index w'.value := by
          simp [valueTexts, ← index_eq]
        rw [hset, List.getElem?_set] at hother
        split at hother
        · rename_i hi
          subst hi
          obtain rfl := Option.some.inj (hm.symm.trans hk)
          split at hother
          · obtain rfl := Option.some.inj hother
            exact hread
          · cases hother
        · obtain rfl := Option.some.inj (htext.symm.trans hother)
          exact hreads

/-- A text of a record has the records that its member carries at the place of the member. -/
theorem readsAt_within {held : ρ → Option σ} (hcarries : m.Carries r held) :
    o.codec.ReadsAt (.within m.name index) r held where
  found := by
    intro text a h hheld
    refine exists_holds ho hskips hlocal hclosed hm h ?_
    intro hmissing
    rw [hcarries.missing hmissing] at hheld
    cases hheld
  exchanged := by
    intro text text' a value value' h hexchange hbrace hbrace' _
    obtain ⟨hvalue, hagain⟩ := ofText_exchanged ho hskips hlocal hclosed hm hexchange h
    obtain ⟨s, hheld, hread⟩ := (hcarries.reads hbrace).mp hvalue
    exact ⟨s, hread, fun hread' => hagain ((hcarries.reads hbrace').mpr ⟨s, hheld, hread'⟩)⟩

end Within

end Record

end RecipeClient.Json
