import RecipeClient.Json.Value

/-!
# Canonical values

Entries with distinct keys are only moved about when they are sorted, and entries that are sorted
already stay where they are. So a value in canonical form is its own canonical form, and no object
in it repeats a key.
-/

namespace RecipeClient.Json

/-! ## Sorted entries -/

namespace Entries

/-- The keys are in strictly ascending order. -/
def Ascending (entries : Entries) : Prop := entries.keys.Pairwise (· < ·)

variable {key : String} {value : Value} {entries : Entries}

theorem Ascending.nodup (h : entries.Ascending) : entries.keys.Nodup :=
  h.imp String.ne_of_lt

theorem Ascending.filter (h : entries.Ascending) (p : String × Value → Bool) :
    Ascending (entries.filter p) :=
  h.sublist (List.filter_sublist.map _)

theorem mem_insert {entry : String × Value} (h : entry ∈ insert key value entries) :
    entry = (key, value) ∨ entry ∈ entries := by
  induction entries with
  | nil => exact Or.inl (List.mem_singleton.mp h)
  | cons head rest ih =>
    obtain ⟨k, v⟩ := head
    simp only [insert] at h
    split at h
    · exact List.mem_cons.mp h
    · split at h
      · rcases List.mem_cons.mp h with h | h
        · exact Or.inl h
        · exact Or.inr (List.mem_cons_of_mem _ h)
      · rcases List.mem_cons.mp h with h | h
        · exact Or.inr (h ▸ List.mem_cons_self ..)
        · exact (ih h).imp id (List.mem_cons_of_mem _)

theorem ascending_insert (h : entries.Ascending) : (insert key value entries).Ascending := by
  induction entries with
  | nil => exact List.pairwise_singleton ..
  | cons head rest ih =>
    obtain ⟨k, v⟩ := head
    obtain ⟨hhead, hrest⟩ := List.pairwise_cons.mp h
    simp only [insert]
    split
    · rename_i hlt
      apply List.pairwise_cons.mpr ⟨?_, h⟩
      intro other hother
      rcases List.mem_cons.mp hother with rfl | hother
      · exact hlt
      · exact String.lt_trans hlt (hhead other hother)
    · rename_i hlt
      split
      · rename_i heq
        exact heq ▸ h
      · rename_i hne
        -- neither in front nor the same, so the key stands behind the head
        have hgt : k < key := Decidable.byContradiction fun hgt =>
          hne (String.le_antisymm (String.not_lt.mp hgt) (String.not_lt.mp hlt))
        apply List.pairwise_cons.mpr ⟨?_, ih hrest⟩
        intro other hother
        obtain ⟨entry, hentry, rfl⟩ := List.mem_map.mp hother
        rcases mem_insert hentry with rfl | hentry
        · exact hgt
        · exact hhead _ (List.mem_map_of_mem hentry)

theorem insert_perm (h : key ∉ entries.keys) :
    (insert key value entries).Perm ((key, value) :: entries) := by
  induction entries with
  | nil => exact List.Perm.refl _
  | cons head rest ih =>
    obtain ⟨k, v⟩ := head
    have hne : key ≠ k := fun hk => h (hk ▸ List.mem_cons_self ..)
    have hrest : key ∉ keys rest := fun hk => h (List.mem_cons_of_mem _ hk)
    -- no entry has the key, so none is replaced
    simp only [insert, if_neg hne]
    split
    · exact List.Perm.refl _
    · exact ((ih hrest).cons _).trans (List.Perm.swap ..)

/-- An entry behind all others is added at the end. -/
theorem insert_of_last (h : ∀ other ∈ entries.keys, other < key) :
    insert key value entries = entries ++ [(key, value)] := by
  induction entries with
  | nil => rfl
  | cons head rest ih =>
    obtain ⟨k, v⟩ := head
    have hlt : k < key := h k (List.mem_cons_self ..)
    simp only [insert, if_neg (String.lt_asymm hlt), if_neg (String.ne_of_lt hlt).symm,
      List.cons_append]
    rw [ih fun other hother => h other (List.mem_cons_of_mem _ hother)]

/-- Entries sorted into others, one after another. -/
def sortedInto (base entries : Entries) : Entries :=
  -- the last entry of a key is the one that is kept
  entries.foldl (fun sofar entry => insert entry.1 entry.2 sofar) base

theorem mem_sortedInto (base : Entries) {entry : String × Value}
    (h : entry ∈ sortedInto base entries) : entry ∈ base ∨ entry ∈ entries := by
  induction entries generalizing base with
  | nil => exact Or.inl h
  | cons head rest ih =>
    rcases ih _ h with h | h
    · rcases mem_insert h with rfl | h
      · exact Or.inr (List.mem_cons_self ..)
      · exact Or.inl h
    · exact Or.inr (List.mem_cons_of_mem _ h)

theorem ascending_sortedInto (base : Entries) (h : base.Ascending) :
    (sortedInto base entries).Ascending := by
  induction entries generalizing base with
  | nil => exact h
  | cons head rest ih => exact ih _ (ascending_insert h)

theorem sortedInto_perm (base : Entries) (h : (keys (base ++ entries)).Nodup) :
    (sortedInto base entries).Perm (base ++ entries) := by
  induction entries generalizing base with
  | nil => rw [List.append_nil]; exact List.Perm.refl _
  | cons head rest ih =>
    obtain ⟨k, v⟩ := head
    -- the head is new to the base, so inserting it is putting it in front
    have hmiddle : (base ++ (k, v) :: rest).Perm ((k, v) :: base ++ rest) := List.perm_middle
    have hkeys : (keys ((k, v) :: base ++ rest)).Nodup := (hmiddle.map Prod.fst).nodup_iff.mp h
    have hk : k ∉ keys base := by
      intro hk
      have hmem : k ∈ base.map Prod.fst ++ rest.map Prod.fst := List.mem_append_left _ hk
      rw [← List.map_append] at hmem
      exact (List.nodup_cons.mp hkeys).1 hmem
    have hinsert : (insert k v base ++ rest).Perm ((k, v) :: base ++ rest) :=
      (insert_perm hk).append_right rest
    exact (ih _ ((hinsert.map Prod.fst).nodup_iff.mpr hkeys)).trans (hinsert.trans hmiddle.symm)

theorem sortedInto_of_ascending (base : Entries) (h : Ascending (base ++ entries)) :
    sortedInto base entries = base ++ entries := by
  induction entries generalizing base with
  | nil => rw [List.append_nil]; rfl
  | cons head rest ih =>
    obtain ⟨k, v⟩ := head
    -- each entry in turn stands behind all that were sorted so far
    have hlast : ∀ other ∈ keys base, other < k := by
      intro other hother
      rw [Ascending, keys, List.map_append] at h
      exact (List.pairwise_append.mp h).2.2 other hother k (List.mem_cons_self ..)
    have hinsert : insert k v base = base ++ [(k, v)] := insert_of_last hlast
    rw [List.append_cons] at h
    calc sortedInto base ((k, v) :: rest) = sortedInto (base ++ [(k, v)]) rest :=
          congrArg (sortedInto · rest) hinsert
      _ = base ++ [(k, v)] ++ rest := ih _ h
      _ = base ++ (k, v) :: rest := (List.append_cons ..).symm

theorem mem_of_mem_sorted {entry : String × Value} (h : entry ∈ entries.sorted) :
    entry ∈ entries :=
  (mem_sortedInto [] h).resolve_left List.not_mem_nil

theorem mem_of_mem_overlay {base extra : Entries} {entry : String × Value}
    (h : entry ∈ base.overlay extra) : entry ∈ base ∨ entry ∈ extra :=
  (mem_sortedInto base.sorted h).imp mem_of_mem_sorted id

theorem ascending_sorted (entries : Entries) : entries.sorted.Ascending :=
  ascending_sortedInto [] List.Pairwise.nil

/-- Entries with distinct keys are all kept. -/
theorem sorted_perm (h : entries.keys.Nodup) : entries.sorted.Perm entries :=
  sortedInto_perm [] h

theorem sorted_of_ascending (h : entries.Ascending) : entries.sorted = entries :=
  sortedInto_of_ascending [] h

/-- Entries in ascending order are determined by which entries they are. -/
theorem Ascending.eq_of_perm {other : Entries} (h : entries.Ascending) (hother : other.Ascending)
    (hperm : entries.Perm other) : entries = other := by
  -- two keys are never each below the other, so nothing is left to compare
  have hanti : ∀ a b : String × Value, a ∈ entries → b ∈ other → a.1 < b.1 → b.1 < a.1 → a = b :=
    fun a b _ _ hab hba => absurd hba (String.lt_asymm hab)
  exact hperm.eq_of_pairwise hanti (List.pairwise_map.mp h) (List.pairwise_map.mp hother)

end Entries

/-! ## Canonical form -/

namespace Value

/-- Induction over values, with all items and all members at once. -/
@[elab_as_elim]
theorem induction {P : Value → Prop} (null : P .null) (boolean : ∀ b, P (.boolean b))
    (number : ∀ n, P (.number n)) (string : ∀ s, P (.string s))
    (array : ∀ items, (∀ v ∈ items, P v) → P (.array items))
    (object : ∀ members, (∀ m ∈ members, P m.2) → P (.object members)) : ∀ v, P v
  | .null => null
  | .boolean b => boolean b
  | .number n => number n
  | .string s => string s
  | .array items =>
    array items fun v _ => induction null boolean number string array object v
  | .object members =>
    object members fun m _ => induction null boolean number string array object m.2
termination_by v => sizeOf v
decreasing_by
  · rename_i h
    have := List.sizeOf_lt_of_mem h
    simp only [Value.array.sizeOf_spec]
    omega
  · rename_i h
    have := List.sizeOf_lt_of_mem h
    have : sizeOf m = 1 + sizeOf m.1 + sizeOf m.2 := rfl
    simp only [Value.object.sizeOf_spec]
    omega

theorem canonicalItems_eq_map (items : List Value) :
    canonicalItems items = items.map canonical := by
  induction items with
  | nil => rfl
  | cons v vs ih => rw [canonicalItems, ih, List.map_cons]

theorem canonicalMembers_eq_map (members : Entries) :
    canonicalMembers members = members.map fun m => (m.1, m.2.canonical) := by
  induction members with
  | nil => rfl
  | cons m ms ih => rw [canonicalMembers, ih, List.map_cons]

theorem keys_canonicalMembers (members : Entries) :
    Entries.keys (canonicalMembers members) = Entries.keys members := by
  rw [canonicalMembers_eq_map, Entries.keys, Entries.keys, List.map_map]
  rfl

/-- Members whose values are canonical are left alone. -/
theorem canonicalMembers_of_canonical {members : Entries}
    (h : ∀ m ∈ members, m.2.canonical = m.2) : canonicalMembers members = members := by
  rw [canonicalMembers_eq_map]
  calc members.map (fun m => (m.1, m.2.canonical)) = members.map id :=
        List.map_congr_left fun m hm => by rw [h m hm, id]
    _ = members := List.map_id _

/-- The members of a canonical object are those of the object, with values in canonical form. -/
theorem exists_of_mem_canonical {members : Entries} {m : String × Value}
    (hm : m ∈ Entries.sorted (canonicalMembers members)) :
    ∃ raw ∈ members, m = (raw.1, raw.2.canonical) := by
  have hm := Entries.mem_of_mem_sorted hm
  rw [canonicalMembers_eq_map] at hm
  obtain ⟨raw, hraw, rfl⟩ := List.mem_map.mp hm
  exact ⟨raw, hraw, rfl⟩

/-- The canonical form of members: sorted, with values in canonical form. -/
theorem canonical_of_mem_sorted {members : Entries} {m : String × Value}
    (ih : ∀ m ∈ members, m.2.canonical.canonical = m.2.canonical)
    (hm : m ∈ Entries.sorted (canonicalMembers members)) : m.2.canonical = m.2 := by
  obtain ⟨raw, hraw, rfl⟩ := exists_of_mem_canonical hm
  exact ih raw hraw

/-- A value in canonical form is its own canonical form. -/
@[simp]
theorem canonical_canonical (v : Value) : v.canonical.canonical = v.canonical := by
  induction v using Value.induction with
  | null => rfl
  | boolean b => rfl
  | number n => rfl
  | string s => rfl
  | array items ih =>
    simp only [canonical, canonicalItems_eq_map, List.map_map]
    exact congrArg Value.array (List.map_congr_left ih)
  | object members ih =>
    simp only [canonical]
    -- sorting only moves members about, so the induction hypothesis still reaches them
    rw [canonicalMembers_of_canonical fun m => canonical_of_mem_sorted ih,
      Entries.sorted_of_ascending (Entries.ascending_sorted _)]

/-- The items of a canonical list are canonical. -/
theorem canonical_of_mem {items : List Value} (h : (array items).canonical = .array items) :
    ∀ v ∈ items, v.canonical = v := by
  have hitems := array.inj h
  rw [canonicalItems_eq_map] at hitems
  exact List.map_inj_left.mp (hitems.trans (List.map_id items).symm)

/-! ## Repeated keys -/

/-- No object in the value has two members of one key. -/
inductive KeysDistinct : Value → Prop where
  | null : KeysDistinct .null
  | boolean (b : Bool) : KeysDistinct (.boolean b)
  | number (n : Number) : KeysDistinct (.number n)
  | string (s : String) : KeysDistinct (.string s)
  | array {items : List Value} (h : ∀ v ∈ items, KeysDistinct v) : KeysDistinct (.array items)
  | object {members : Entries} (keys : members.keys.Nodup) (h : ∀ m ∈ members, KeysDistinct m.2) :
      KeysDistinct (.object members)

theorem keysDistinct_canonical (v : Value) : v.canonical.KeysDistinct := by
  induction v using Value.induction with
  | null => exact .null
  | boolean b => exact .boolean b
  | number n => exact .number n
  | string s => exact .string s
  | array items ih =>
    rw [canonical, canonicalItems_eq_map]
    exact .array (List.forall_mem_map.mpr ih)
  | object members ih =>
    rw [canonical]
    apply KeysDistinct.object (Entries.ascending_sorted _).nodup
    intro m hm
    -- sorting keeps the last member of each key, with its value in canonical form
    obtain ⟨raw, hraw, rfl⟩ := exists_of_mem_canonical hm
    exact ih raw hraw

/-! ## Equality -/

theorem eq_of_sameItems {items others : List Value}
    (ih : ∀ v ∈ items, ∀ w, v.same w = true → v = w) (h : sameItems items others = true) :
    items = others := by
  induction items generalizing others with
  | nil =>
    cases others with
    | nil => rfl
    | cons w others => exact absurd h nofun
  | cons v items ihs =>
    cases others with
    | nil => exact absurd h nofun
    | cons w others =>
      rw [sameItems, Bool.and_eq_true] at h
      rw [ih v (List.mem_cons_self ..) w h.1,
        ihs (fun u hu => ih u (List.mem_cons_of_mem _ hu)) h.2]

theorem eq_of_sameMembers {members others : List (String × Value)}
    (ih : ∀ m ∈ members, ∀ w, m.2.same w = true → m.2 = w)
    (h : sameMembers members others = true) : members = others := by
  induction members generalizing others with
  | nil =>
    cases others with
    | nil => rfl
    | cons n others => exact absurd h nofun
  | cons m members ihs =>
    cases others with
    | nil => exact absurd h nofun
    | cons n others =>
      rw [sameMembers, Bool.and_eq_true, Bool.and_eq_true] at h
      obtain ⟨⟨hkey, hvalue⟩, hrest⟩ := h
      rw [Prod.ext (eq_of_beq hkey) (ih m (List.mem_cons_self ..) n.2 hvalue),
        ihs (fun u hu => ih u (List.mem_cons_of_mem _ hu)) hrest]

/-- Values that are found to be the same are equal. -/
theorem eq_of_same {v w : Value} (h : v.same w = true) : v = w := by
  induction v using Value.induction generalizing w with
  | null =>
    cases w with
    | null => rfl
    | _ => exact absurd h nofun
  | boolean b =>
    cases w with
    | boolean c => exact congrArg boolean (eq_of_beq h)
    | _ => exact absurd h nofun
  | number n =>
    cases w with
    | number k => exact congrArg number (eq_of_beq h)
    | _ => exact absurd h nofun
  | string s =>
    cases w with
    | string t => exact congrArg string (eq_of_beq h)
    | _ => exact absurd h nofun
  | array items ih =>
    cases w with
    | array others => exact congrArg array (eq_of_sameItems (fun v hv _ => ih v hv) h)
    | _ => exact absurd h nofun
  | object members ih =>
    cases w with
    | object others => exact congrArg object (eq_of_sameMembers (fun m hm _ => ih m hm) h)
    | _ => exact absurd h nofun

end Value

end RecipeClient.Json
