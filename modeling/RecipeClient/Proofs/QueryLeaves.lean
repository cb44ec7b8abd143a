import RecipeClient.Exchange.Query
import RecipeClient.Json.Read
import RecipeClient.Proofs.ByteOrder
import RecipeClient.Proofs.Json.Lookup
import RecipeClient.Proofs.Json.Values

/-!
# The leaves of parameters

A path leads into a value, step by step: to the member of an object under a key, or to the item of
a list at an index. The pairs of a query are the scalars that paths lead to, in the order of their
paths, each under the last key of its path. So they do not depend on how the members of the
parameters were ordered in a text.

- `Value.at?`, `Value.pairAt?`: what a path leads to, and the pair it gives
- `leafPaths`: the paths to the scalars of a value, in order
- `enumerates_leaves`: the pairs of parameters are exactly their leaves, in the order of the bytes
  of the keys, and texts that differ in the order of members give the same address
-/

namespace RecipeClient

namespace Json

/-! ## Paths -/

/-- A step into a value. -/
inductive PathStep where
  /-- To the member of an object under a key. -/
  | key (name : String)
  /-- To an item of a list. -/
  | index (position : Nat)

/-- Steps into a value, the outermost first. -/
abbrev Path := List PathStep

namespace PathStep

/-- The key of a step to a member. -/
def name? : PathStep → Option String
  | .key name => some name
  | .index _ => none

/-- Members are ordered by the bytes of their keys, and items by their positions. -/
def Before : PathStep → PathStep → Prop
  | .key a, .key b => Text.Percent.utf8 a.toList < Text.Percent.utf8 b.toList
  | .index i, .index j => i < j
  | .key _, .index _ => False
  | .index _, .key _ => False

end PathStep

namespace Path

/-- The key of the innermost member that a path leads through. -/
def innermost? (path : Path) : Option String := (path.filterMap PathStep.name?).getLast?

/-- The order of a walk that goes into every member and item before it goes on to the next. -/
def Before (path other : Path) : Prop := List.Lex PathStep.Before path other

theorem innermost?_key (name : String) (path : Path) :
    innermost? (.key name :: path) = some (path.innermost?.getD name) := by
  simp [innermost?, PathStep.name?, List.getLast?_cons]

theorem innermost?_index (i : Nat) (path : Path) : innermost? (.index i :: path) = path.innermost? := by
  simp [innermost?, PathStep.name?]

theorem Before.cons {path other : Path} (h : path.Before other) (step : PathStep) :
    Path.Before (step :: path) (step :: other) := List.Lex.cons h

theorem Before.of_step {step next : PathStep} (h : step.Before next) (path other : Path) :
    Path.Before (step :: path) (next :: other) := List.Lex.rel h

end Path

namespace Value

/-- The value that a path leads to; of the members under one key, the last counts. -/
def at? : Value → Path → Option Value
  | v, [] => some v
  | .object members, .key name :: path => (Entries.get? members name).bind (at? · path)
  | .array items, .index i :: path => items[i]?.bind (at? · path)
  | _, _ :: _ => none

/-- The text of a scalar; `null` has none. -/
def scalarText? : Value → Option String
  | .boolean b => some (if b then "true" else "false")
  | .number n => some n.text
  | .string s => some s
  | .null | .array _ | .object _ => none

/-- The text of the scalar that a path leads to. -/
def leaf? (v : Value) (path : Path) : Option String := (v.at? path).bind scalarText?

/-- The pair of a path: its innermost key and the text of the scalar that it leads to. -/
def pairAt? (v : Value) (path : Path) : Option (String × String) := do
  let key ← path.innermost?
  let text ← v.leaf? path
  return (key, text)

@[simp]
theorem leaf?_nil (v : Value) : v.leaf? [] = v.scalarText? := by simp [leaf?, at?]

@[simp]
theorem leaf?_object_key (members : Entries) (name : String) (path : Path) :
    (Value.object members).leaf? (.key name :: path) =
      (Entries.get? members name).bind (·.leaf? path) := by
  simp only [leaf?, at?, Option.bind_assoc]

@[simp]
theorem leaf?_array_index (items : List Value) (i : Nat) (path : Path) :
    (Value.array items).leaf? (.index i :: path) = items[i]?.bind (·.leaf? path) := by
  simp only [leaf?, at?, Option.bind_assoc]

@[simp]
theorem leaf?_object_index (members : Entries) (i : Nat) (path : Path) :
    (Value.object members).leaf? (.index i :: path) = none := by simp [leaf?, at?]

@[simp]
theorem leaf?_array_key (items : List Value) (name : String) (path : Path) :
    (Value.array items).leaf? (.key name :: path) = none := by simp [leaf?, at?]

theorem scalarText?_canonical (v : Value) : v.canonical.scalarText? = v.scalarText? := by
  cases v <;> simp [canonical, scalarText?]

/-- The canonical form has the same scalars in the same places. -/
theorem leaf?_canonical (v : Value) (path : Path) : v.canonical.leaf? path = v.leaf? path := by
  induction path generalizing v with
  | nil => simp [scalarText?_canonical]
  | cons step path ih =>
    cases v with
    | null | boolean _ | number _ | string _ => simp [canonical, leaf?, at?]
    | array items =>
      rw [canonical, canonicalItems_eq_map]
      cases step with
      | key name => simp
      | index i => simp [Option.bind_map, Function.comp_def, ih]
    | object members =>
      rw [canonical]
      cases step with
      | key name => simp [Entries.get?_canonical, Option.bind_map, Function.comp_def, ih]
      | index i => simp

theorem pairAt?_canonical (v : Value) (path : Path) : v.canonical.pairAt? path = v.pairAt? path := by
  simp [pairAt?, leaf?_canonical]

/-- The parts of a list in canonical form are in canonical form. -/
theorem canonical_item {items : List Value} (h : (Value.array items).canonical = .array items) :
    ∀ v ∈ items, v.canonical = v := by
  rw [canonical, canonicalItems_eq_map, Value.array.injEq] at h
  exact List.map_inj_left.mp (h.trans (List.map_id items).symm)

theorem ascending_of_canonical {members : Entries}
    (h : (Value.object members).canonical = .object members) : members.Ascending := by
  rw [canonical, Value.object.injEq] at h
  exact h ▸ Entries.ascending_sorted _

theorem canonical_member {members : Entries}
    (h : (Value.object members).canonical = .object members) : ∀ m ∈ members, m.2.canonical = m.2 := by
  rw [canonical, Value.object.injEq] at h
  intro m hm
  rw [← h] at hm
  exact canonical_of_mem_sorted (fun m _ => canonical_canonical m.2) hm

/-! ## The paths to scalars -/

mutual

/-- The paths to the scalars of a value, in order. -/
def leafPaths : Value → List Path
  | .null => []
  | .boolean _ | .number _ | .string _ => [[]]
  | .array items => itemPaths 0 items
  | .object members => memberPaths members

/-- The paths to the scalars of items that begin at a position. -/
def itemPaths (position : Nat) : List Value → List Path
  | [] => []
  | item :: items => (leafPaths item).map (.index position :: ·) ++ itemPaths (position + 1) items

/-- The paths to the scalars of members. -/
def memberPaths : List (String × Value) → List Path
  | [] => []
  | (key, value) :: members => (leafPaths value).map (.key key :: ·) ++ memberPaths members

end

/-! ### Which paths they are -/

theorem mem_itemPaths {position : Nat} {items : List Value} {path : Path} :
    path ∈ itemPaths position items ↔
      ∃ i item rest, items[i]? = some item ∧ rest ∈ leafPaths item ∧
        path = .index (position + i) :: rest := by
  induction items generalizing position with
  | nil => simp [itemPaths]
  | cons head items ih =>
    rw [itemPaths, List.mem_append, ih, List.mem_map]
    constructor
    · rintro (⟨rest, hrest, rfl⟩ | ⟨i, item, rest, hitem, hrest, rfl⟩)
      · exact ⟨0, head, rest, rfl, hrest, rfl⟩
      · refine ⟨i + 1, item, rest, by simpa using hitem, hrest, ?_⟩
        rw [Nat.add_right_comm, Nat.add_assoc]
    · rintro ⟨i, item, rest, hitem, hrest, rfl⟩
      cases i with
      | zero =>
        obtain rfl := Option.some.inj hitem
        exact Or.inl ⟨rest, hrest, rfl⟩
      | succ i =>
        refine Or.inr ⟨i, item, rest, by simpa using hitem, hrest, ?_⟩
        rw [Nat.add_right_comm, Nat.add_assoc]

theorem mem_memberPaths {members : Entries} {path : Path} :
    path ∈ memberPaths members ↔
      ∃ m ∈ members, ∃ rest ∈ leafPaths m.2, path = .key m.1 :: rest := by
  induction members with
  | nil => simp [memberPaths]
  | cons head members ih =>
    rw [memberPaths, List.mem_append, ih, List.mem_map]
    simp [eq_comm]

/-- The paths are those that lead to a scalar. -/
theorem mem_leafPaths {v : Value} (h : v.canonical = v) {path : Path} :
    path ∈ v.leafPaths ↔ ∃ text, v.leaf? path = some text := by
  induction v using Value.induction generalizing path with
  | null => cases path <;> simp [leafPaths, leaf?, at?, scalarText?]
  | boolean b => cases path <;> simp [leafPaths, leaf?, at?, scalarText?]
  | number n => cases path <;> simp [leafPaths, leaf?, at?, scalarText?]
  | string s => cases path <;> simp [leafPaths, leaf?, at?, scalarText?]
  | array items ih =>
    have hitems := canonical_item h
    rw [leafPaths, mem_itemPaths]
    constructor
    · rintro ⟨i, item, rest, hitem, hrest, rfl⟩
      have hmem := List.mem_of_getElem? hitem
      simpa [hitem] using (ih item hmem (hitems item hmem)).mp hrest
    · rintro ⟨text, hleaf⟩
      match path with
      | [] => simp [scalarText?] at hleaf
      | .key name :: rest => simp at hleaf
      | .index i :: rest =>
        rw [leaf?_array_index] at hleaf
        obtain ⟨item, hitem, hrest⟩ := Option.bind_eq_some_iff.mp hleaf
        have hmem := List.mem_of_getElem? hitem
        refine ⟨i, item, rest, hitem, (ih item hmem (hitems item hmem)).mpr ⟨text, hrest⟩, ?_⟩
        rw [Nat.zero_add]
  | object members ih =>
    have hmembers := canonical_member h
    have hkeys := (ascending_of_canonical h).nodup
    rw [leafPaths, mem_memberPaths]
    constructor
    · rintro ⟨m, hm, rest, hrest, rfl⟩
      have hget : Entries.get? members m.1 = some m.2 := Entries.get?_of_mem hkeys hm
      simpa [hget] using (ih m hm (hmembers m hm)).mp hrest
    · rintro ⟨text, hleaf⟩
      match path with
      | [] => simp [scalarText?] at hleaf
      | .index i :: rest => simp at hleaf
      | .key name :: rest =>
        rw [leaf?_object_key] at hleaf
        obtain ⟨value, hvalue, hrest⟩ := Option.bind_eq_some_iff.mp hleaf
        have hmem := Entries.mem_of_get? hvalue
        exact ⟨(name, value), hmem, rest,
          (ih _ hmem (hmembers _ hmem)).mpr ⟨text, hrest⟩, rfl⟩

/-! ### Their order -/

theorem pairwise_itemPaths {position : Nat} {items : List Value}
    (h : ∀ v ∈ items, v.leafPaths.Pairwise Path.Before) :
    (itemPaths position items).Pairwise Path.Before := by
  induction items generalizing position with
  | nil => exact List.Pairwise.nil
  | cons head items ih =>
    rw [itemPaths]
    apply List.pairwise_append.mpr
    refine ⟨?_, ih fun v hv => h v (List.mem_cons_of_mem _ hv), ?_⟩
    · apply List.pairwise_map.mpr
      exact (h head (List.mem_cons_self ..)).imp fun hbefore => hbefore.cons _
    · intro path hpath other hother
      obtain ⟨rest, -, rfl⟩ := List.mem_map.mp hpath
      obtain ⟨i, item, rest', -, -, rfl⟩ := mem_itemPaths.mp hother
      apply Path.Before.of_step
      show position < position + 1 + i
      omega

theorem pairwise_memberPaths {members : Entries} (hkeys : members.Ascending)
    (h : ∀ m ∈ members, m.2.leafPaths.Pairwise Path.Before) :
    (memberPaths members).Pairwise Path.Before := by
  induction members with
  | nil => exact List.Pairwise.nil
  | cons head members ih =>
    obtain ⟨hhead, hrest⟩ := List.pairwise_cons.mp hkeys
    rw [memberPaths]
    apply List.pairwise_append.mpr
    refine ⟨?_, ih hrest fun m hm => h m (List.mem_cons_of_mem _ hm), ?_⟩
    · apply List.pairwise_map.mpr
      exact (h head (List.mem_cons_self ..)).imp fun hbefore => hbefore.cons _
    · intro path hpath other hother
      obtain ⟨rest, -, rfl⟩ := List.mem_map.mp hpath
      obtain ⟨m, hm, rest', -, rfl⟩ := mem_memberPaths.mp hother
      have hlt : head.1 < m.1 := hhead m.1 (List.mem_map_of_mem hm)
      apply Path.Before.of_step
      exact Text.Percent.utf8_lt_of_lt hlt

/-- The paths are in order, so none of them is there twice. -/
theorem pairwise_leafPaths {v : Value} (h : v.canonical = v) : v.leafPaths.Pairwise Path.Before := by
  induction v using Value.induction with
  | null => exact List.Pairwise.nil
  | boolean b => exact List.pairwise_singleton ..
  | number n => exact List.pairwise_singleton ..
  | string s => exact List.pairwise_singleton ..
  | array items ih =>
    apply pairwise_itemPaths
    exact fun v hv => ih v hv (canonical_item h v hv)
  | object members ih =>
    apply pairwise_memberPaths (ascending_of_canonical h)
    exact fun m hm => ih m hm (canonical_member h m hm)

/-! ### What they lead to -/

/-- The pair that a path gives below a member with a key. -/
def pairUnder? (key : String) (v : Value) (path : Path) : Option (String × String) :=
  (v.leaf? path).map fun text => (path.innermost?.getD key, text)

theorem pairUnder?_array_index (key : String) (items : List Value) (i : Nat) (path : Path) :
    pairUnder? key (.array items) (.index i :: path) = items[i]?.bind (pairUnder? key · path) := by
  simp [pairUnder?, Path.innermost?_index, Option.map_bind, Function.comp_def]

theorem pairAt?_object_key (members : Entries) (name : String) (path : Path) :
    (Value.object members).pairAt? (.key name :: path) =
      (Entries.get? members name).bind (pairUnder? name · path) := by
  simp [pairAt?, pairUnder?, Path.innermost?_key, Function.comp_def, Option.map_eq_bind,
    Option.bind_assoc]

/-- An object gives every scalar in it a key of its own. -/
theorem pairUnder?_object (key : String) (members : Entries) (path : Path) :
    pairUnder? key (.object members) path = (Value.object members).pairAt? path := by
  match path with
  | [] => simp [pairUnder?, pairAt?, scalarText?]
  | .index i :: path => simp [pairUnder?, pairAt?]
  | .key name :: path =>
    simp [pairUnder?, pairAt?, Path.innermost?_key, Option.map_eq_bind, Function.comp_def]

theorem map_itemPaths {key : String} {position : Nat} {items all : List Value}
    (h : ∀ v ∈ items, v.leafPaths.map (pairUnder? key v) = (Query.leaves key v).map some)
    (hall : ∀ i, all[position + i]? = items[i]?) :
    (itemPaths position items).map (pairUnder? key (.array all)) =
      (Query.leavesOfItems key items).map some := by
  induction items generalizing position with
  | nil => simp [itemPaths, Query.leavesOfItems]
  | cons head items ih =>
    have hhead : all[position]? = some head := by simpa using hall 0
    have hbehind : ∀ i, all[position + 1 + i]? = items[i]? := by
      intro i
      have hnext := hall (i + 1)
      rwa [List.getElem?_cons_succ, Nat.add_left_comm, Nat.add_comm] at hnext
    have hrest := ih (fun v hv => h v (List.mem_cons_of_mem _ hv)) hbehind
    rw [itemPaths, Query.leavesOfItems, List.map_append, List.map_append, hrest,
      ← h head (List.mem_cons_self ..)]
    simp [Function.comp_def, pairUnder?_array_index, hhead]

theorem map_memberPaths {members all : Entries}
    (h : ∀ m ∈ members, m.2.leafPaths.map (pairUnder? m.1 m.2) = (Query.leaves m.1 m.2).map some)
    (hall : ∀ m ∈ members, Entries.get? all m.1 = some m.2) :
    (memberPaths members).map (Value.object all).pairAt? =
      (Query.leavesOfMembers members).map some := by
  induction members with
  | nil => simp [memberPaths, Query.leavesOfMembers]
  | cons head members ih =>
    obtain ⟨key, value⟩ := head
    have hhead : Entries.get? all key = some value := hall _ (List.mem_cons_self ..)
    have hrest := ih (fun m hm => h m (List.mem_cons_of_mem _ hm)) fun m hm =>
      hall m (List.mem_cons_of_mem _ hm)
    rw [memberPaths, Query.leavesOfMembers, List.map_append, List.map_append, hrest,
      ← h _ (List.mem_cons_self ..)]
    simp [Function.comp_def, pairAt?_object_key, hhead]

/-- The paths give the pairs that the value contributes, in the same order. -/
theorem map_leafPaths {v : Value} (h : v.canonical = v) (key : String) :
    v.leafPaths.map (pairUnder? key v) = (Query.leaves key v).map some := by
  induction v using Value.induction generalizing key with
  | null => simp [leafPaths, Query.leaves]
  | boolean b => simp [leafPaths, Query.leaves, pairUnder?, scalarText?, Path.innermost?]
  | number n => simp [leafPaths, Query.leaves, pairUnder?, scalarText?, Path.innermost?]
  | string s => simp [leafPaths, Query.leaves, pairUnder?, scalarText?, Path.innermost?]
  | array items ih =>
    apply map_itemPaths
    · exact fun v hv => ih v hv (canonical_item h v hv) key
    · simp
  | object members ih =>
    rw [leafPaths, Query.leaves, ← map_memberPaths]
    · exact List.map_congr_left fun path _ => pairUnder?_object key members path
    · exact fun m hm => ih m hm (canonical_member h m hm) m.1
    · exact fun m hm => Entries.get?_of_mem (ascending_of_canonical h).nodup hm

/-! ## Members in another order -/

/-- The values differ at most in the order of the members of objects, at any depth; the keys of
objects that differ are distinct. -/
inductive Rearranged : Value → Value → Prop where
  | refl (v : Value) : Rearranged v v
  | array {items others : List Value} (length : items.length = others.length)
      (h : ∀ pair ∈ items.zip others, Rearranged pair.1 pair.2) :
      Rearranged (.array items) (.array others)
  | object {members others : Entries} (distinct : members.keys.Nodup)
      (keys : members.keys.Perm others.keys)
      (h : ∀ key v w, (key, v) ∈ members → (key, w) ∈ others → Rearranged v w) :
      Rearranged (.object members) (.object others)

/-- Members with distinct keys may stand in any order. -/
theorem Rearranged.of_perm {members others : Entries} (distinct : members.keys.Nodup)
    (h : members.Perm others) : Rearranged (.object members) (.object others) := by
  apply Rearranged.object distinct (h.map Prod.fst)
  intro key v w hv hw
  have hv := Entries.get?_of_mem distinct hv
  have hw := Entries.get?_of_mem distinct (h.mem_iff.mpr hw)
  obtain rfl := Option.some.inj (hv.symm.trans hw)
  exact Rearranged.refl v

/-- The canonical form does not tell apart values that differ in the order of members. -/
theorem canonical_eq_of_rearranged {v w : Value} (h : Rearranged v w) :
    v.canonical = w.canonical := by
  induction h with
  | refl v => rfl
  | @array items others length h ih =>
    rw [canonical, canonical, canonicalItems_eq_map, canonicalItems_eq_map]
    congr 1
    calc items.map canonical = ((items.zip others).map Prod.fst).map canonical := by
          rw [List.map_fst_zip (Nat.le_of_eq length)]
      _ = ((items.zip others).map Prod.snd).map canonical := by
          rw [List.map_map, List.map_map]
          exact List.map_congr_left ih
      _ = others.map canonical := by rw [List.map_snd_zip (Nat.le_of_eq length.symm)]
  | @object members others distinct keys h ih =>
    rw [canonical, canonical]
    congr 1
    apply (Entries.ascending_sorted _).eq_of_get? (Entries.ascending_sorted _)
    intro key
    rw [Entries.get?_canonical, Entries.get?_canonical]
    -- a key is missing from both or has related values in both
    cases hmembers : Entries.get? members key with
    | none =>
      have hkey : key ∉ Entries.keys others := fun hmem =>
        Entries.get?_eq_none.mp hmembers (keys.mem_iff.mpr hmem)
      rw [Entries.get?_eq_none.mpr hkey]
    | some v =>
      cases hothers : Entries.get? others key with
      | none =>
        have hkey : key ∈ Entries.keys members :=
          List.mem_map_of_mem (Entries.mem_of_get? hmembers)
        exact absurd (keys.mem_iff.mp hkey) (Entries.get?_eq_none.mp hothers)
      | some w =>
        have heq := ih key v w (Entries.mem_of_get? hmembers) (Entries.mem_of_get? hothers)
        rw [Option.map_some, Option.map_some, heq]

end Value

end Json

namespace Query

open Json (Entries Value Path Reader)

theorem ofParameters_of_not_object {parameters : Value} (hnull : parameters ≠ .null)
    (hobject : ∀ members, parameters ≠ .object members) :
    ofParameters parameters = .error ⟨parameters.canonical⟩ := by
  cases parameters with
  | null => exact absurd rfl hnull
  | object members => exact absurd rfl (hobject members)
  | boolean _ | number _ | string _ | array _ => rfl

/-- What parameters become depends on their canonical form alone. -/
theorem ofParameters_canonical (parameters : Value) :
    ofParameters parameters.canonical = ofParameters parameters := by
  rw [ofParameters, Value.canonical_canonical, ofParameters]

/-- The paths into canonical parameters give the pairs of the parameters. -/
theorem map_pairAt?_leafPaths {parameters : Value} (h : parameters.canonical = parameters)
    {query : Query} (hquery : ofParameters parameters = .ok query) :
    parameters.leafPaths.map parameters.pairAt? = query.map some := by
  rw [ofParameters, h] at hquery
  cases parameters with
  | null =>
    obtain rfl := Except.ok.inj hquery
    rfl
  | object members =>
    obtain rfl := Except.ok.inj hquery
    -- no key stands around an object at the top, so none is passed on to its scalars
    have hpairs := Value.map_leafPaths h ""
    rwa [List.map_congr_left fun path _ => Value.pairUnder?_object "" members path] at hpairs
  | boolean _ | number _ | string _ | array _ => exact absurd hquery (by simp [membersOf, Except.map])

/-- The pairs of parameters are their scalars other than `null`, each one once: a walk through the
parameters meets them in the order of their paths, and each stands under the key of the innermost
member around it. Parameters are refused exactly if they are neither `null` nor an object. Texts
that differ only in the order of members have the same address behind every path. -/
theorem enumerates_leaves (parameters : Value) :
    ((∃ bad, ofParameters parameters = .error bad) ↔
      parameters ≠ .null ∧ ∀ members, parameters ≠ .object members) ∧
    (∀ query, ofParameters parameters = .ok query →
      ∃ paths : List Path, paths.Pairwise Path.Before ∧
        (∀ path, path ∈ paths ↔ ∃ text, parameters.leaf? path = some text) ∧
        paths.map parameters.pairAt? = query.map some) ∧
    (∀ text other v w, Reader.whole Value.read text = .ok v → Reader.whole Value.read other = .ok w →
      v.Rearranged w → ∃ parsed parsed', Value.ofText text = .ok parsed ∧
        Value.ofText other = .ok parsed' ∧
        ∀ path, withParameters path parsed = withParameters path parsed') := by
  refine ⟨?_, ?_, ?_⟩
  · constructor
    · rintro ⟨bad, hbad⟩
      constructor
      · rintro rfl
        exact absurd hbad (by simp [ofParameters, Value.canonical, membersOf, Except.map])
      · rintro members rfl
        exact absurd hbad (by simp [ofParameters, Value.canonical, membersOf, Except.map])
    · intro hkind
      exact ⟨_, ofParameters_of_not_object hkind.1 hkind.2⟩
  · intro query hquery
    have hcanonical := Value.canonical_canonical parameters
    refine ⟨parameters.canonical.leafPaths, Value.pairwise_leafPaths hcanonical, ?_, ?_⟩
    · intro path
      rw [Value.mem_leafPaths hcanonical, Value.leaf?_canonical]
    · have hquery : ofParameters parameters.canonical = .ok query := by
        rwa [ofParameters_canonical]
      rw [← map_pairAt?_leafPaths hcanonical hquery]
      exact List.map_congr_left fun path _ => (Value.pairAt?_canonical parameters path).symm
  · intro text other v w hv hw hsame
    refine ⟨v.canonical, w.canonical, ?_, ?_, ?_⟩
    · rw [Value.ofText, hv, Except.map]
    · rw [Value.ofText, hw, Except.map]
    · intro path
      rw [Value.canonical_eq_of_rearranged hsame]

/-- The members of an object inside a list are in another order, and the address is the same. -/
theorem enumerates_leaves_nested :
    let text := "\x7b\"a\":[null,\x7b\"d\":\"y\",\"c\":\"x\"\x7d]\x7d"
    let other := "\x7b\"a\":[null,\x7b\"c\":\"x\",\"d\":\"y\"\x7d]\x7d"
    ∃ v w parsed parsed', Reader.whole Value.read text = .ok v ∧
      Reader.whole Value.read other = .ok w ∧ v.Rearranged w ∧
      Value.ofText text = .ok parsed ∧ Value.ofText other = .ok parsed' ∧
      withParameters "/api" parsed' = .ok "/api?c=x&d=y" ∧
      withParameters "/api" parsed = withParameters "/api" parsed' := by
  intro text other
  let nested (members : Entries) : Value := .object [("a", .array [.null, .object members])]
  let members : Entries := [("d", .string "y"), ("c", .string "x")]
  let others : Entries := [("c", .string "x"), ("d", .string "y")]
  have hv : Reader.whole Value.read text = .ok (nested members) := by
    apply Value.eq_ok_of_same
    rw [Reader.whole_ofList]
    decide +kernel
  have hw : Reader.whole Value.read other = .ok (nested others) := by
    apply Value.eq_ok_of_same
    rw [Reader.whole_ofList]
    decide +kernel
  have hinner : Value.Rearranged (.object members) (.object others) := by
    apply Value.Rearranged.of_perm
    · simp [Entries.keys, members]
    · exact List.Perm.swap ..
  have hsame : (nested members).Rearranged (nested others) := by
    apply Value.Rearranged.object
    · simp [Entries.keys]
    · exact List.Perm.refl _
    · intro key v w hv hw
      obtain ⟨rfl, rfl⟩ := Prod.mk.inj (List.mem_singleton.mp hv)
      obtain ⟨-, rfl⟩ := Prod.mk.inj (List.mem_singleton.mp hw)
      apply Value.Rearranged.array
      · simp
      · simp [Value.Rearranged.refl, hinner]
  obtain ⟨parsed, parsed', hparsed, hparsed', haddress⟩ :=
    (enumerates_leaves .null).2.2 text other _ _ hv hw hsame
  refine ⟨_, _, parsed, parsed', hv, hw, hsame, hparsed, hparsed', ?_, haddress "/api"⟩
  rw [Value.ofText, hw] at hparsed'
  obtain rfl := Except.ok.inj hparsed'
  exact Json.ok_of_toOption (by decide +kernel)

end Query

end RecipeClient
