import RecipeClient.Proofs.Json.Canonical

/-!
# Looking up entries

The last entry of a key is the one that counts. Sorting keeps it, so canonical entries have under
each key what they had before, in canonical form.

- `Entries.get?_sorted`: sorting keeps what is under every key
- `Entries.get?_canonical`: so does the canonical form
-/

namespace RecipeClient.Json

namespace Entries

variable {key : String} {value : Value} {entries : Entries}

theorem get?_append (front behind : Entries) (key : String) :
    get? (front ++ behind) key = (get? behind key).or (get? front key) := by
  unfold get?
  rw [List.reverse_append, List.find?_append]
  cases behind.reverse.find? (·.1 == key) <;> rfl

theorem get?_singleton (k key : String) (value : Value) :
    get? [(k, value)] key = if k = key then some value else none := by
  by_cases hk : k = key
  · simp [get?, hk]
  · simp [get?, hk]

/-- An entry behind others is found first. -/
theorem get?_concat (entries : Entries) (k : String) (value : Value) (key : String) :
    get? (entries ++ [(k, value)]) key = if k = key then some value else entries.get? key := by
  rw [get?_append, get?_singleton]
  split <;> rfl

theorem get?_cons (k : String) (value : Value) (entries : Entries) (key : String) :
    get? ((k, value) :: entries) key =
      (get? entries key).or (if k = key then some value else none) := by
  rw [← List.singleton_append, get?_append, get?_singleton]

theorem get?_eq_none : entries.get? key = none ↔ key ∉ entries.keys := by
  induction entries with
  | nil => exact ⟨fun _ => List.not_mem_nil, fun _ => rfl⟩
  | cons head rest ih =>
    obtain ⟨k, v⟩ := head
    rw [get?_cons, Option.or_eq_none_iff, ih]
    by_cases hk : k = key
    · simp [keys, hk]
    · simp [keys, hk, Ne.symm hk]

theorem get?_of_mem (hkeys : entries.keys.Nodup) (h : (key, value) ∈ entries) :
    entries.get? key = some value := by
  induction entries with
  | nil => exact absurd h List.not_mem_nil
  | cons head rest ih =>
    obtain ⟨k, v⟩ := head
    obtain ⟨hnew, hrest⟩ := List.nodup_cons.mp hkeys
    rw [get?_cons]
    rcases List.mem_cons.mp h with heq | hmem
    · obtain ⟨rfl, rfl⟩ := Prod.mk.inj heq
      -- no later entry has the key
      rw [get?_eq_none.mpr hnew, if_pos rfl]
      rfl
    · rw [ih hrest hmem]
      rfl

theorem mem_of_get? (h : entries.get? key = some value) : (key, value) ∈ entries := by
  induction entries with
  | nil => exact absurd h (by simp [get?])
  | cons head rest ih =>
    obtain ⟨k, v⟩ := head
    rw [get?_cons] at h
    rcases Option.or_eq_some_iff.mp h with hrest | ⟨-, hhead⟩
    · exact List.mem_cons_of_mem _ (ih hrest)
    · split at hhead
      · rename_i hk
        obtain rfl := Option.some.inj hhead
        exact hk ▸ List.mem_cons_self ..
      · exact absurd hhead (by simp)

/-- Entries in ascending order are determined by what is under each key. -/
theorem Ascending.eq_of_get? {other : Entries} (h : entries.Ascending) (hother : other.Ascending)
    (hget : ∀ key, entries.get? key = other.get? key) : entries = other := by
  have hdistinct : ∀ {es : Entries}, es.Ascending → es.Nodup := fun hes =>
    List.Pairwise.of_map Prod.fst (fun a b hne heq => hne (congrArg Prod.fst heq)) hes.nodup
  apply h.eq_of_perm hother
  apply (List.perm_ext_iff_of_nodup (hdistinct h) (hdistinct hother)).mpr
  intro ⟨key, value⟩
  constructor
  · intro hmem
    exact mem_of_get? ((hget key).symm.trans (get?_of_mem h.nodup hmem))
  · intro hmem
    exact mem_of_get? ((hget key).trans (get?_of_mem hother.nodup hmem))

/-- An entry put among sorted ones is the one of its key. -/
theorem get?_insert (h : entries.Ascending) (k : String) (v : Value) (key : String) :
    (insert k v entries).get? key = if k = key then some v else entries.get? key := by
  induction entries with
  | nil => exact get?_singleton k key v
  | cons head rest ih =>
    obtain ⟨k', v'⟩ := head
    obtain ⟨hhead, hrest⟩ := List.pairwise_cons.mp h
    rw [insert]
    split
    · rename_i hlt
      rw [get?_cons]
      split
      · rename_i hkey
        -- all keys that are there stand behind the new one
        have hnone : get? ((k', v') :: rest) key = none := by
          apply get?_eq_none.mpr
          intro hmem
          rcases List.mem_cons.mp hmem with hsame | hmem
          · exact String.lt_irrefl k' (by rwa [hkey, hsame] at hlt)
          · exact String.lt_irrefl k' (String.lt_trans (hhead key hmem) (hkey ▸ hlt))
        rw [hnone]
        rfl
      · exact Option.or_none
    · split
      · rename_i hsame
        -- the new entry takes the place of the only one of its key
        subst hsame
        rw [get?_cons, get?_cons]
        split
        · rename_i hkey
          have hnone : get? rest key = none := by
            apply get?_eq_none.mpr
            intro hmem
            exact String.lt_irrefl k (hkey ▸ hhead key hmem)
          rw [hnone]
          rfl
        · rfl
      · -- the new entry belongs further behind
        rw [get?_cons, get?_cons, ih hrest]
        split
        · rfl
        · rfl

/-- Of the entries sorted into others, each is found before those. -/
theorem get?_sortedInto (base : Entries) (h : base.Ascending) (entries : Entries) (key : String) :
    (sortedInto base entries).get? key = (entries.get? key).or (base.get? key) := by
  induction entries generalizing base with
  | nil => rfl
  | cons head rest ih =>
    obtain ⟨k, v⟩ := head
    have hrest := ih (insert k v base) (ascending_insert h)
    rw [get?_insert h] at hrest
    rw [get?_cons, Option.or_assoc]
    refine hrest.trans (congrArg _ ?_)
    split <;> rfl

/-- Sorting keeps what is under every key. -/
theorem get?_sorted (entries : Entries) (key : String) :
    entries.sorted.get? key = entries.get? key :=
  (get?_sortedInto [] List.Pairwise.nil entries key).trans Option.or_none

/-- Of two objects laid over each other, the upper one is looked at first. -/
theorem get?_overlay (base extra : Entries) (key : String) :
    (base.overlay extra).get? key = (extra.get? key).or (base.get? key) := by
  rw [← get?_sorted base]
  exact get?_sortedInto _ (ascending_sorted base) extra key

theorem get?_canonicalMembers (entries : Entries) (key : String) :
    get? (Value.canonicalMembers entries) key = (entries.get? key).map Value.canonical := by
  induction entries with
  | nil => rfl
  | cons head rest ih =>
    obtain ⟨k, v⟩ := head
    rw [Value.canonicalMembers, get?_cons, get?_cons, ih]
    cases get? rest key with
    | some found => rfl
    | none => split <;> rfl

/-- The canonical form keeps what is under every key. -/
theorem get?_canonical (entries : Entries) (key : String) :
    (sorted (Value.canonicalMembers entries)).get? key =
      (entries.get? key).map Value.canonical := by
  rw [get?_sorted, get?_canonicalMembers]

/-- What is found in a canonical object is canonical. -/
theorem canonical_of_get? (h : (Value.object entries).canonical = .object entries)
    (hv : entries.get? key = some value) : value.canonical = value := by
  have hmem := mem_of_get? hv
  rw [← Value.object.inj h] at hmem
  obtain ⟨raw, _, heq⟩ := Value.exists_of_mem_canonical hmem
  obtain ⟨-, rfl⟩ := Prod.mk.inj heq
  exact raw.2.canonical_canonical

theorem get?_filter (p : String → Bool) (hkey : p key = true) :
    get? (entries.filter fun entry => p entry.1) key = entries.get? key := by
  induction entries with
  | nil => rfl
  | cons head rest ih =>
    obtain ⟨k, v⟩ := head
    rw [List.filter_cons, get?_cons, ← ih]
    split
    · rw [get?_cons]
    · rename_i hp
      have hk : k ≠ key := by
        rintro rfl
        exact hp hkey
      rw [if_neg hk, Option.or_none]

end Entries

end RecipeClient.Json
