import RecipeClient.Api.Operation
import RecipeClient.Proofs.Json.Restoring
import RecipeClient.Proofs.Json.UnknownMembers
import RecipeClient.Proofs.QueryDecoding

/-!
# The addresses of searches and suggestions

A search is asked for by an address that holds its criteria as pairs, sorted by their names. Each
criterion is alone under its name, and a scalar or a list of texts can be read off the values under
its name. Only an empty list leaves no trace, like one that is not set. So two searches have one
address exactly if they are the same up to that, and the same holds for suggestions with their foods
and tools.

- `Query.texts`: the values of a key; `Query.Ordered.eq_of_texts`: they determine sorted pairs
- `Query.texts_pairsOf`: the values of a key in the pairs of flat members
- `RecipeSearchQuery.ofQuery_pairs`, `RecipeSuggestionQuery.ofQuery_pairs`: the criteria are read
  back
- `Operation.addresses_keep_arguments`: addresses are the same exactly if the criteria are
-/

namespace RecipeClient

open Json (Codec Entries Member Record Value)

namespace Query

/-! ## The values of a key -/

/-- The values of a key, in order. -/
def texts (query : Query) (key : String) : List String :=
  (query.filter (·.1 == key)).map (·.2)

/-- The pairs are in the order of their keys. -/
def Ordered (query : Query) : Prop := query.Pairwise fun a b => a.1 ≤ b.1

variable {query other : Query} {key : String}

theorem texts_append (query other : Query) (key : String) :
    (query ++ other).texts key = query.texts key ++ other.texts key := by
  simp [texts]

theorem texts_cons_self (key value : String) (query : Query) :
    Query.texts ((key, value) :: query) key = value :: query.texts key := by
  simp [texts]

theorem texts_cons_of_ne {k : String} (h : k ≠ key) (value : String) (query : Query) :
    Query.texts ((k, value) :: query) key = query.texts key := by
  simp [texts, h]

theorem mem_keys_of_texts_ne_nil (h : query.texts key ≠ []) : ∃ pair ∈ query, pair.1 = key := by
  obtain ⟨text, htext⟩ := List.exists_mem_of_ne_nil _ h
  obtain ⟨pair, hpair, -⟩ := List.mem_map.mp htext
  obtain ⟨hmem, hkey⟩ := List.mem_filter.mp hpair
  exact ⟨pair, hmem, by simpa using hkey⟩

/-- A key that has values does not stand before the first key. -/
theorem Ordered.le_of_texts_ne_nil {k value : String} (h : Ordered ((k, value) :: query))
    (htexts : Query.texts ((k, value) :: query) key ≠ []) : k ≤ key := by
  obtain ⟨pair, hpair, rfl⟩ := mem_keys_of_texts_ne_nil htexts
  rcases List.mem_cons.mp hpair with rfl | hpair
  · exact String.le_refl _
  · exact (List.pairwise_cons.mp h).1 pair hpair

/-- Pairs in the order of their keys are determined by the values of each key. -/
theorem Ordered.eq_of_texts (h : query.Ordered) (hother : other.Ordered)
    (htexts : ∀ key, query.texts key = other.texts key) : query = other := by
  induction query generalizing other with
  | nil =>
    cases other with
    | nil => rfl
    | cons pair other =>
      have hpair := htexts pair.1
      rw [texts_cons_self] at hpair
      exact absurd hpair (by simp [texts])
  | cons pair query ih =>
    obtain ⟨k, value⟩ := pair
    have hk := htexts k
    rw [texts_cons_self] at hk
    cases other with
    | nil => exact absurd hk (by simp [texts])
    | cons pair' other =>
      obtain ⟨k', value'⟩ := pair'
      -- the first key of either has values in the other one, so neither stands before the other
      have hle : k' ≤ k := hother.le_of_texts_ne_nil (hk ▸ List.cons_ne_nil _ _)
      have hge : k ≤ k' := by
        apply h.le_of_texts_ne_nil
        rw [htexts k', texts_cons_self]
        exact List.cons_ne_nil _ _
      obtain rfl := String.le_antisymm hge hle
      rw [texts_cons_self] at hk
      obtain ⟨rfl, -⟩ := List.cons.inj hk
      rw [ih (List.pairwise_cons.mp h).2 (List.pairwise_cons.mp hother).2]
      intro key
      have hkey := htexts key
      by_cases hsame : k = key
      · subst hsame
        rw [texts_cons_self, texts_cons_self] at hkey
        exact (List.cons.inj hkey).2
      · rwa [texts_cons_of_ne hsame, texts_cons_of_ne hsame] at hkey

/-! ## Flat members -/

/-- A value that puts all that it holds under the key that it has itself. -/
def Flat (v : Value) : Prop := ∀ key, ∀ pair ∈ leaves key v, pair.1 = key

/-- The texts that a value contributes under a key. -/
def textsOf (key : String) (v : Value) : List String := (leaves key v).map (·.2)

theorem texts_leaves_self {v : Value} (h : Flat v) (key : String) :
    Query.texts (leaves key v) key = textsOf key v := by
  rw [texts, textsOf, List.filter_eq_self.mpr]
  intro pair hpair
  simp [h key pair hpair]

theorem texts_leaves_of_ne {v : Value} (h : Flat v) {k : String} (hne : k ≠ key) :
    Query.texts (leaves k v) key = [] := by
  rw [texts, List.map_eq_nil_iff, List.filter_eq_nil_iff]
  intro pair hpair
  simpa [h k pair hpair] using hne

theorem texts_leavesOfMembers {members : Entries} (hkeys : members.keys.Nodup)
    (hflat : ∀ m ∈ members, Flat m.2) (key : String) :
    Query.texts (leavesOfMembers members) key =
      (members.get? key).elim [] (textsOf key) := by
  induction members with
  | nil => simp [leavesOfMembers, texts, Entries.get?]
  | cons head rest ih =>
    obtain ⟨k, v⟩ := head
    obtain ⟨hnew, hrest⟩ := List.nodup_cons.mp hkeys
    have hv : Flat v := hflat (k, v) (List.mem_cons_self ..)
    have htail := ih hrest fun m hm => hflat m (List.mem_cons_of_mem _ hm)
    rw [leavesOfMembers, texts_append, htail, Entries.get?_cons]
    by_cases hk : k = key
    · subst hk
      -- no other member has the key
      rw [Entries.get?_eq_none.mpr hnew, texts_leaves_self hv]
      simp
    · rw [texts_leaves_of_ne hv hk]
      simp [hk]

theorem mem_leavesOfMembers {members : Entries} {pair : String × String}
    (h : pair ∈ leavesOfMembers members) : ∃ m ∈ members, pair ∈ leaves m.1 m.2 := by
  induction members with
  | nil => exact absurd h (by simp [leavesOfMembers])
  | cons head rest ih =>
    rw [leavesOfMembers] at h
    rcases List.mem_append.mp h with h | h
    · exact ⟨head, List.mem_cons_self .., h⟩
    · obtain ⟨m, hm, hpair⟩ := ih h
      exact ⟨m, List.mem_cons_of_mem _ hm, hpair⟩

theorem ordered_leaves {v : Value} (h : Flat v) (key : String) : Ordered (leaves key v) := by
  have hall : (leaves key v).Pairwise fun _ _ => True := List.pairwise_of_forall (by simp)
  apply hall.imp_of_mem
  intro first second hfirst hsecond _
  have hsame : first.1 = second.1 := (h key first hfirst).trans (h key second hsecond).symm
  exact hsame ▸ String.le_refl first.1

theorem ordered_leavesOfMembers {members : Entries} (hkeys : members.Ascending)
    (hflat : ∀ m ∈ members, Flat m.2) : Ordered (leavesOfMembers members) := by
  induction members with
  | nil => exact List.Pairwise.nil
  | cons head rest ih =>
    obtain ⟨k, v⟩ := head
    obtain ⟨hhead, hrest⟩ := List.pairwise_cons.mp hkeys
    have hv : Flat v := hflat (k, v) (List.mem_cons_self ..)
    have hflatRest : ∀ m ∈ rest, Flat m.2 := fun m hm => hflat m (List.mem_cons_of_mem _ hm)
    rw [leavesOfMembers]
    apply List.pairwise_append.mpr
    refine ⟨ordered_leaves hv k, ih hrest hflatRest, ?_⟩
    intro first hfirst second hsecond
    obtain ⟨m, hm, hpair⟩ := mem_leavesOfMembers hsecond
    rw [hv k first hfirst, hflatRest m hm m.1 second hpair]
    exact String.not_lt.mp (String.lt_asymm (hhead m.1 (List.mem_map_of_mem hm)))

/-- The pairs of an object with members. -/
def pairsOf (members : Entries) : Query :=
  leavesOfMembers (Entries.sorted (Value.canonicalMembers members))

theorem ofParameters_object (members : Entries) :
    ofParameters (.object members) = .ok (pairsOf members) := by
  simp [ofParameters, Value.canonical, membersOf, Except.map, pairsOf]

theorem flat_of_mem_canonical {members : Entries} (h : ∀ m ∈ members, Flat m.2.canonical) :
    ∀ m ∈ Entries.sorted (Value.canonicalMembers members), Flat m.2 := by
  intro m hm
  obtain ⟨origin, horigin, rfl⟩ := Value.exists_of_mem_canonical hm
  exact h origin horigin

theorem ordered_pairsOf {members : Entries} (h : ∀ m ∈ members, Flat m.2.canonical) :
    (pairsOf members).Ordered :=
  ordered_leavesOfMembers (Entries.ascending_sorted _) (flat_of_mem_canonical h)

/-- Under each key stand the texts of the last member with the key. -/
theorem texts_pairsOf {members : Entries} (h : ∀ m ∈ members, Flat m.2.canonical) (key : String) :
    (pairsOf members).texts key =
      (members.get? key).elim [] fun v => textsOf key v.canonical := by
  rw [pairsOf, texts_leavesOfMembers (Entries.ascending_sorted _).nodup (flat_of_mem_canonical h),
    Entries.get?_canonical]
  cases members.get? key <;> rfl

end Query

/-! ## Criteria -/

namespace Query

/-- The text under a key, if there is one. -/
def text? (query : Query) (key : String) : Option String := (query.texts key).head?

/-- The value of which the text under a key is the JSON text, if there is one. -/
def read? {α : Type} (codec : Codec α) (query : Query) (key : String) : Option α :=
  (query.text? key).bind fun text => (codec.ofText text).toOption

/-- A list that is not empty. -/
def filled? (texts : List String) : Option (List String) :=
  if texts.isEmpty then none else some texts

/-- The list under a key, if it is not empty. -/
def list? (query : Query) (key : String) : Option (List String) := filled? (query.texts key)

@[simp]
theorem textsOf_null (key : String) : textsOf key .null = [] := by simp [textsOf, leaves]

@[simp]
theorem textsOf_string (key s : String) : textsOf key (.string s) = [s] := by
  simp [textsOf, leaves]

@[simp]
theorem textsOf_boolean (key : String) (b : Bool) :
    textsOf key (.boolean b) = [(Value.boolean b).text] := by
  cases b <;> simp [textsOf, leaves, Value.text, Value.chars]

@[simp]
theorem textsOf_number (key : String) (n : Json.Number) :
    textsOf key (.number n) = [(Value.number n).text] := by
  simp [textsOf, leaves, Value.text, Value.chars, Json.Number.text]

theorem leavesOfItems_strings (key : String) (ss : List String) :
    leavesOfItems key (ss.map .string) = ss.map (key, ·) := by
  induction ss with
  | nil => simp [leavesOfItems]
  | cons s ss ih => simp [leavesOfItems, leaves, ih]

@[simp]
theorem textsOf_strings (key : String) (ss : List String) :
    textsOf key (.array (ss.map .string)) = ss := by
  simp [textsOf, leaves, leavesOfItems_strings, Function.comp_def]

end Query

open Query (Flat filled? textsOf)

theorem toValue_optional {α : Type} (codec : Codec α) (a : Option α) :
    codec.optional.toValue a = a.elim .null codec.toValue := by
  cases a <;> simp [Codec.toValue, Codec.optional, Value.canonical]

/-- What criteria are made of: values without objects in them. -/
def Flattens {α : Type} (codec : Codec α) : Prop := ∀ a, Flat (codec.toValue a)

theorem flattens_string : Flattens Codec.string := by
  intro s key pair hpair
  simp_all [Codec.toValue, Codec.string, Value.canonical, Query.leaves]

theorem flattens_boolean : Flattens Codec.boolean := by
  intro b key pair hpair
  simp_all [Codec.toValue, Codec.boolean, Value.canonical, Query.leaves]

theorem flattens_integer : Flattens Codec.integer := by
  intro n key pair hpair
  simp_all [Codec.toValue, Codec.integer, Value.canonical, Query.leaves]

theorem toValue_strings (ss : List String) :
    Codec.string.list.toValue ss = .array (ss.map .string) := by
  simp [Codec.toValue, Codec.list, Codec.string, Value.canonical, Value.canonicalItems_eq_map,
    Function.comp_def]

theorem flattens_strings : Flattens Codec.string.list := by
  intro ss key pair hpair
  rw [toValue_strings, Query.leaves, Query.leavesOfItems_strings] at hpair
  obtain ⟨s, -, rfl⟩ := List.mem_map.mp hpair
  rfl

theorem Flattens.optional {α : Type} {codec : Codec α} (h : Flattens codec) :
    Flattens codec.optional := by
  intro a
  rw [toValue_optional]
  cases a with
  | none =>
    intro key pair hpair
    exact absurd hpair (by simp [Query.leaves])
  | some a => exact h a

/-- A member that is written without objects, and as nothing at all when it is left out. -/
structure IsCriterion {ρ : Type} (m : Member ρ) : Prop where
  flattens : Flattens m.codec
  omits : ∀ b, m.omits b = true → m.codec.toValue b = .null

theorem isCriterion_of_flattens {ρ α : Type} {codec : Codec α} (h : Flattens codec) (name : String)
    (get : ρ → Option α) (set : ρ → Option α → ρ) :
    IsCriterion (Member.criterion name codec get set) where
  flattens := h.optional
  omits b hb := by
    obtain rfl := Option.isNone_iff_eq_none.mp hb
    exact toValue_optional codec none

/-- A record of criteria. -/
structure OfCriteria {ρ : Type} (r : Record ρ) : Prop where
  names : (r.members.map (·.name)).Nodup
  closed : r.remainder = none
  members : ∀ m ∈ r.members, IsCriterion m

namespace OfCriteria

variable {ρ : Type} {r : Record ρ}

theorem flat (hr : OfCriteria r) (a : ρ) : ∀ entry ∈ r.sent a, Flat entry.2.canonical := by
  intro entry hentry
  have hmem := Entries.mem_of_mem_sorted hentry
  rw [Value.canonicalMembers_eq_map, Record.entries_eq, Record.rest_eq_nil hr.closed,
    List.append_nil] at hmem
  obtain ⟨origin, horigin, rfl⟩ := List.mem_map.mp hmem
  obtain ⟨m, hm, -, rfl⟩ := Record.mem_written horigin
  rw [Value.canonical_canonical]
  exact (hr.members m hm).flattens _

/-- A criterion contributes the same texts whether it is left out or written as `null`. -/
theorem textsOf_sent (hr : OfCriteria r) (a : ρ) {m : Member ρ} (hm : m ∈ r.members) (key : String) :
    ((r.sent a).get? m.name).elim [] (fun v => textsOf key v.canonical) =
      textsOf key (m.codec.toValue (m.get a)) := by
  have hrest : ∀ entry ∈ r.rest a, r.knows entry.1 = false := by
    simp [Record.rest_eq_nil hr.closed]
  rw [Record.get?_sent_of_mem hr.names hrest hm]
  split
  · rename_i homits
    simp [(hr.members m hm).omits _ homits]
  · simp [Codec.toValue]

theorem get?_sent_eq_none (hr : OfCriteria r) (a : ρ) {key : String} (hkey : r.knows key = false) :
    (r.sent a).get? key = none := by
  have hrest : r.rest a = Entries.sorted (Value.canonicalMembers []) :=
    Record.rest_eq_nil hr.closed a
  exact Record.get?_sent_of_unknown hrest hkey

end OfCriteria

/-! ## Reading criteria -/

namespace Query

variable {query : Query} {key : String}

theorem text?_eq {a : Option String}
    (h : query.texts key = textsOf key (Codec.string.optional.toValue a)) : query.text? key = a := by
  rw [text?, h, toValue_optional]
  cases a <;> simp [Codec.toValue, Codec.string, Value.canonical]

theorem textsOf_optional_strings (key : String) (a : Option (List String)) :
    textsOf key (Codec.string.list.optional.toValue a) = a.getD [] := by
  rw [toValue_optional]
  cases a with
  | none => simp
  | some ss => simp [toValue_strings]

theorem list?_eq {a : Option (List String)}
    (h : query.texts key = textsOf key (Codec.string.list.optional.toValue a)) :
    query.list? key = a.bind filled? := by
  rw [list?, h, textsOf_optional_strings]
  cases a <;> simp [filled?]

/-- An empty list contributes as little as one that is not set. -/
theorem textsOf_filled? (key : String) (a : Option (List String)) :
    textsOf key (Codec.string.list.optional.toValue (a.bind filled?)) =
      textsOf key (Codec.string.list.optional.toValue a) := by
  rw [textsOf_optional_strings, textsOf_optional_strings]
  match a with
  | none => rfl
  | some [] => rfl
  | some (s :: ss) => rfl

theorem read?_eq {α : Type} {codec : Codec α} (htext : ∀ b, codec.ofText (codec.write b).text = .ok b)
    (hone : ∀ b, textsOf key (codec.toValue b) = [(codec.write b).text]) {a : Option α}
    (h : query.texts key = textsOf key (codec.optional.toValue a)) :
    query.read? codec key = a := by
  rw [read?, text?, h, toValue_optional]
  cases a with
  | none => simp
  | some b => simp [hone, htext, Except.toOption]

theorem read?_boolean_eq {a : Option Bool}
    (h : query.texts key = textsOf key (Codec.boolean.optional.toValue a)) :
    query.read? Codec.boolean key = a := by
  apply read?_eq _ _ h
  · intro b
    exact (Codec.restores_boolean b).ofText_text (by simp [Codec.boolean, Value.Faithful, Value.doubles]) false
  · intro b
    simp [Codec.toValue, Codec.boolean, Value.canonical]

theorem read?_integer_eq {a : Option Int64}
    (h : query.texts key = textsOf key (Codec.integer.optional.toValue a)) :
    query.read? Codec.integer key = a := by
  apply read?_eq _ _ h
  · intro n
    exact (Codec.restores_integer n).ofText_text (by simp [Codec.integer, Value.Faithful, Value.doubles]) false
  · intro n
    simp [Codec.toValue, Codec.integer, Value.canonical]

end Query

/-! ## Searches -/

namespace RecipeSearchQuery

/-- The criteria with every empty list as one that is not set. -/
def normal (q : RecipeSearchQuery) : RecipeSearchQuery :=
  { q with
    households := q.households.bind filled?
    categories := q.categories.bind filled?
    tags := q.tags.bind filled?
    tools := q.tools.bind filled?
    foods := q.foods.bind filled? }

/-- The criteria that pairs stand for. -/
def ofQuery (query : Query) : RecipeSearchQuery where
  search := query.text? "search"
  orderDirection := query.text? "orderDirection"
  groupId := query.text? "groupId"
  queryFilter := query.text? "queryFilter"
  cookbook := query.text? "cookbook"
  households := query.list? "households"
  categories := query.list? "categories"
  requireAllCategories := query.read? Codec.boolean "requireAllCategories"
  tags := query.list? "tags"
  requireAllTags := query.read? Codec.boolean "requireAllTags"
  tools := query.list? "tools"
  requireAllTools := query.read? Codec.boolean "requireAllTools"
  foods := query.list? "foods"
  requireAllFoods := query.read? Codec.boolean "requireAllFoods"
  page := query.read? Codec.integer "page"
  perPage := query.read? Codec.integer "perPage"
  orderBy := query.text? "orderBy"
  orderByNullPosition := query.text? "orderByNullPosition"
  searchSeed := query.text? "_searchSeed"

theorem ofCriteria : OfCriteria record where
  names := by decide
  closed := rfl
  members := by
    simp only [record, List.forall_mem_cons]
    simp [isCriterion_of_flattens, flattens_string, flattens_boolean, flattens_integer, flattens_strings]

/-- The pairs of a search. -/
def pairs (q : RecipeSearchQuery) : Query := Query.pairsOf (record.sent q)

theorem texts_pairs (q : RecipeSearchQuery) :
    ∀ m ∈ record.members, q.pairs.texts m.name = textsOf m.name (m.codec.toValue (m.get q)) := by
  intro m hm
  rw [pairs, Query.texts_pairsOf (ofCriteria.flat q), ofCriteria.textsOf_sent q hm]

theorem ofQuery_pairs (q : RecipeSearchQuery) : ofQuery q.pairs = q.normal := by
  have htexts := texts_pairs q
  simp only [record, List.forall_mem_cons, Member.criterion] at htexts
  obtain ⟨search, orderDirection, groupId, queryFilter, cookbook, households, categories,
    requireAllCategories, tags, requireAllTags, tools, requireAllTools, foods, requireAllFoods, page,
    perPage, orderBy, orderByNullPosition, searchSeed, -⟩ := htexts
  simp only [ofQuery, normal, Query.text?_eq search, Query.text?_eq orderDirection,
    Query.text?_eq groupId, Query.text?_eq queryFilter, Query.text?_eq cookbook,
    Query.list?_eq households, Query.list?_eq categories, Query.list?_eq tags,
    Query.list?_eq tools, Query.list?_eq foods, Query.read?_boolean_eq requireAllCategories,
    Query.read?_boolean_eq requireAllTags, Query.read?_boolean_eq requireAllTools,
    Query.read?_boolean_eq requireAllFoods, Query.read?_integer_eq page,
    Query.read?_integer_eq perPage, Query.text?_eq orderBy, Query.text?_eq orderByNullPosition,
    Query.text?_eq searchSeed]

/-- Empty lists leave no trace in the pairs. -/
theorem pairs_normal (q : RecipeSearchQuery) : q.normal.pairs = q.pairs := by
  apply (Query.ordered_pairsOf (ofCriteria.flat q.normal)).eq_of_texts
    (Query.ordered_pairsOf (ofCriteria.flat q))
  intro key
  cases hkey : record.knows key with
  | false =>
    rw [Query.texts_pairsOf (ofCriteria.flat _), Query.texts_pairsOf (ofCriteria.flat _),
      ofCriteria.get?_sent_eq_none _ hkey, ofCriteria.get?_sent_eq_none _ hkey]
  | true =>
    obtain ⟨m, hm, hname⟩ := List.any_eq_true.mp hkey
    obtain rfl : m.name = key := by simpa using hname
    rw [← pairs, ← pairs, texts_pairs _ m hm, texts_pairs _ m hm]
    revert m
    simp only [record, List.forall_mem_cons]
    simp [Member.criterion, normal, Query.textsOf_filled?]

theorem pairs_eq_iff (q other : RecipeSearchQuery) :
    q.pairs = other.pairs ↔ q.normal = other.normal := by
  constructor
  · intro h
    rw [← ofQuery_pairs, h, ofQuery_pairs]
  · intro h
    rw [← pairs_normal, h, pairs_normal]

end RecipeSearchQuery

/-! ## Suggestions -/

namespace RecipeSuggestionQuery

/-- The criteria that pairs stand for. -/
def ofQuery (query : Query) : RecipeSuggestionQuery where
  orderBy := query.text? "orderBy"
  orderDirection := query.text? "orderDirection"
  queryFilter := query.text? "queryFilter"
  limit := query.read? Codec.integer "limit"
  maxMissingFoods := query.read? Codec.integer "maxMissingFoods"
  maxMissingTools := query.read? Codec.integer "maxMissingTools"
  includeFoodsOnHand := query.read? Codec.boolean "includeFoodsOnHand"
  includeToolsOnHand := query.read? Codec.boolean "includeToolsOnHand"

theorem ofCriteria : OfCriteria record where
  names := by decide
  closed := rfl
  members := by
    simp only [record, List.forall_mem_cons]
    simp [isCriterion_of_flattens, flattens_string, flattens_boolean, flattens_integer]

/-- The foods and tools that are at hand, as members. -/
def stock (foods tools : Option (List String)) : Entries :=
  [("foods", Codec.string.list.optional.toValue foods),
    ("tools", Codec.string.list.optional.toValue tools)]

/-- The members of a request for suggestions. -/
def asked (q : RecipeSuggestionQuery) (foods tools : Option (List String)) : Entries :=
  (record.sent q).overlay (Entries.sorted (Value.canonicalMembers (stock foods tools)))

/-- The pairs of a request for suggestions. -/
def pairs (q : RecipeSuggestionQuery) (foods tools : Option (List String)) : Query :=
  Query.pairsOf (q.asked foods tools)

variable (q other : RecipeSuggestionQuery) (foods tools : Option (List String))

theorem flat_asked : ∀ entry ∈ q.asked foods tools, Flat entry.2.canonical := by
  have hlist : ∀ texts, Flat (Codec.string.list.optional.toValue texts).canonical := by
    intro texts
    rw [Codec.toValue, Value.canonical_canonical]
    exact flattens_strings.optional texts
  have hstock : ∀ entry ∈ stock foods tools, Flat entry.2.canonical := by simp [stock, hlist]
  intro entry hentry
  rcases Entries.mem_of_mem_overlay hentry with hentry | hentry
  · exact ofCriteria.flat q entry hentry
  · rw [Value.canonical_of_mem_sorted (fun m _ => Value.canonical_canonical m.2) hentry]
    exact Query.flat_of_mem_canonical hstock entry hentry

/-- The foods and tools stand under keys of their own. -/
theorem texts_pairs (key : String) : (q.pairs foods tools).texts key =
    if "tools" = key then textsOf key (Codec.string.list.optional.toValue tools)
    else if "foods" = key then textsOf key (Codec.string.list.optional.toValue foods)
    else ((record.sent q).get? key).elim [] fun v => textsOf key v.canonical := by
  rw [pairs, Query.texts_pairsOf (flat_asked q foods tools), asked, Entries.get?_overlay,
    Entries.get?_canonical, stock, Entries.get?_cons, Entries.get?_singleton]
  split
  · simp [Codec.toValue]
  · split
    · simp [Codec.toValue]
    · simp

theorem texts_pairs_of_mem : ∀ m ∈ record.members,
    (q.pairs foods tools).texts m.name = textsOf m.name (m.codec.toValue (m.get q)) := by
  intro m hm
  have hother : "tools" ≠ m.name ∧ "foods" ≠ m.name := by
    revert m
    simp [record, Member.criterion]
  rw [texts_pairs, if_neg hother.1, if_neg hother.2, ofCriteria.textsOf_sent q hm]

theorem ofQuery_pairs : ofQuery (q.pairs foods tools) = q := by
  have htexts := texts_pairs_of_mem q foods tools
  simp only [record, List.forall_mem_cons, Member.criterion] at htexts
  obtain ⟨orderBy, orderDirection, queryFilter, limit, maxMissingFoods, maxMissingTools,
    includeFoodsOnHand, includeToolsOnHand, -⟩ := htexts
  simp only [ofQuery, Query.text?_eq orderBy, Query.text?_eq orderDirection,
    Query.text?_eq queryFilter, Query.read?_integer_eq limit,
    Query.read?_integer_eq maxMissingFoods, Query.read?_integer_eq maxMissingTools,
    Query.read?_boolean_eq includeFoodsOnHand, Query.read?_boolean_eq includeToolsOnHand]

theorem list?_foods : (q.pairs foods tools).list? "foods" = foods.bind filled? := by
  apply Query.list?_eq
  rw [texts_pairs, if_neg (by decide), if_pos rfl]

theorem list?_tools : (q.pairs foods tools).list? "tools" = tools.bind filled? := by
  apply Query.list?_eq
  rw [texts_pairs, if_pos rfl]

/-- Empty lists leave no trace in the pairs. -/
theorem pairs_filled : q.pairs (foods.bind filled?) (tools.bind filled?) = q.pairs foods tools := by
  have hordered : ∀ foods tools, (q.pairs foods tools).Ordered := fun foods tools =>
    Query.ordered_pairsOf (flat_asked q foods tools)
  apply (hordered _ _).eq_of_texts (hordered _ _)
  intro key
  rw [texts_pairs, texts_pairs, Query.textsOf_filled?, Query.textsOf_filled?]

theorem pairs_eq_iff (foods' tools' : Option (List String)) :
    q.pairs foods tools = other.pairs foods' tools' ↔
      q = other ∧ foods.bind filled? = foods'.bind filled? ∧
        tools.bind filled? = tools'.bind filled? := by
  constructor
  · intro h
    refine ⟨?_, ?_, ?_⟩
    · rw [← ofQuery_pairs q foods tools, h, ofQuery_pairs]
    · rw [← list?_foods q foods tools, h, list?_foods]
    · rw [← list?_tools q foods tools, h, list?_tools]
  · rintro ⟨rfl, hfoods, htools⟩
    rw [← pairs_filled, hfoods, htools, pairs_filled]

end RecipeSuggestionQuery

/-! ## Addresses -/

namespace Query

theorem selecting_object (path : String) (members : Entries) :
    Request.selecting path (.object members) = .ok (.get (append path (pairsOf members))) := by
  rw [Request.selecting, withParameters, ofParameters_object]
  rfl

/-- Behind a path without a question mark, pairs are told apart. -/
theorem append_inj {path : String} (h : '?' ∉ path.toList) {query other : Query} :
    append path query = append path other ↔ query = other := by
  constructor
  · intro heq
    have hdecoded := decode?_text query
    rw [← behindMark_append h, heq, behindMark_append h, decode?_text] at hdecoded
    exact (Option.some.inj hdecoded).symm
  · rintro rfl
    rfl

theorem decode?_append {path : String} (h : '?' ∉ path.toList) (query : Query) :
    decode? (behindMark (append path query).toList) = some query := by
  rw [behindMark_append h, decode?_text]

/-- What is written behind a path that has no query. -/
def suffix (query : Query) : String :=
  if query.isEmpty then "" else String.ofList ('?' :: text query)

theorem append_eq {path : String} (h : '?' ∉ path.toList) (query : Query) :
    append path query = path ++ query.suffix := by
  unfold append suffix
  split
  · simp
  · simp [separator, h]

end Query

namespace Operation

theorem request_search (q : RecipeSearchQuery) :
    (searchRecipes q).request = .ok (.get (Query.append Path.recipes q.pairs)) :=
  Query.selecting_object ..

theorem request_searchPublic (group : String) (q : RecipeSearchQuery) :
    (searchPublic group q).request =
      .ok (.get (Query.append (Path.publicRecipes group) q.pairs)) :=
  Query.selecting_object ..

theorem suggestionRequest_eq (path : String) (q : RecipeSuggestionQuery)
    (foods tools : Option (List String)) :
    suggestionRequest path q foods tools =
      .ok (.get (Query.append path (q.pairs foods tools))) := by
  have hbase : Query.membersOf (RecipeSuggestionQuery.codec.toValue q).canonical =
      .ok (RecipeSuggestionQuery.record.sent q) := by
    rw [Codec.toValue, Value.canonical_canonical]
    rfl
  rw [suggestionRequest, Query.overlay, hbase]
  exact Query.selecting_object path (q.asked foods tools)

theorem mark_not_mem_public {group : String} (h : '?' ∉ group.toList) :
    '?' ∉ (Path.publicRecipes group).toList ∧ '?' ∉ (Path.publicSuggestions group).toList := by
  simp [Path.publicRecipes, Path.publicSuggestions, Path.through, Path.root, h]

/-- The address of a search holds exactly its criteria, an empty list counting as one that is not
set, and the address for suggestions holds exactly the criteria with the foods and tools: they are
read back from the pairs behind the mark, and addresses are the same exactly if they are. The public
searches of a group write the same behind a path of their own. -/
theorem addresses_keep_arguments :
    (∀ q : RecipeSearchQuery, ∃ path, (searchRecipes q).request = .ok (.get path) ∧
      (Query.decode? (Query.behindMark path.toList)).map RecipeSearchQuery.ofQuery =
        some q.normal ∧
      ∀ other path', (searchRecipes other).request = .ok (.get path') →
        (path = path' ↔ q.normal = other.normal)) ∧
    (∀ (q : RecipeSuggestionQuery) foods tools, ∃ path,
      (suggestRecipes q foods tools).request = .ok (.get path) ∧
      (Query.decode? (Query.behindMark path.toList)).map (fun query =>
          (RecipeSuggestionQuery.ofQuery query, query.list? "foods", query.list? "tools")) =
        some (q, foods.bind filled?, tools.bind filled?) ∧
      ∀ other foods' tools' path', (suggestRecipes other foods' tools').request = .ok (.get path') →
        (path = path' ↔ q = other ∧ foods.bind filled? = foods'.bind filled? ∧
          tools.bind filled? = tools'.bind filled?)) ∧
    ∀ group : String, '?' ∉ group.toList →
      (∀ q, ∃ behind, (searchRecipes q).request = .ok (.get (Path.recipes ++ behind)) ∧
        (searchPublic group q).request = .ok (.get (Path.publicRecipes group ++ behind))) ∧
      ∀ q foods tools, ∃ behind,
        (suggestRecipes q foods tools).request = .ok (.get (Path.suggestions ++ behind)) ∧
        (suggestPublic group q foods tools).request =
          .ok (.get (Path.publicSuggestions group ++ behind)) := by
  have hrecipes : '?' ∉ Path.recipes.toList := by decide
  have hsuggestions : '?' ∉ Path.suggestions.toList := by decide
  have path_inj : ∀ {path path' : String},
      (Except.ok (Request.get path) : Except BadParameters Request) = .ok (.get path') →
        path = path' := by
    intro path path' h
    exact congrArg Request.path (Except.ok.inj h)
  refine ⟨?_, ?_, ?_⟩
  · intro q
    refine ⟨_, request_search q, ?_, ?_⟩
    · rw [Query.decode?_append hrecipes, Option.map_some, RecipeSearchQuery.ofQuery_pairs]
    · intro other path' hother
      obtain rfl := path_inj ((request_search other).symm.trans hother)
      rw [Query.append_inj hrecipes, RecipeSearchQuery.pairs_eq_iff]
  · intro q foods tools
    refine ⟨_, suggestionRequest_eq _ q foods tools, ?_, ?_⟩
    · rw [Query.decode?_append hsuggestions, Option.map_some, RecipeSuggestionQuery.ofQuery_pairs,
        RecipeSuggestionQuery.list?_foods, RecipeSuggestionQuery.list?_tools]
    · intro other foods' tools' path' hother
      obtain rfl := path_inj ((suggestionRequest_eq _ other foods' tools').symm.trans hother)
      rw [Query.append_inj hsuggestions, RecipeSuggestionQuery.pairs_eq_iff]
  · intro group hgroup
    obtain ⟨hpublic, hpublicSuggestions⟩ := mark_not_mem_public hgroup
    constructor
    · intro q
      refine ⟨q.pairs.suffix, ?_, ?_⟩
      · rw [request_search, Query.append_eq hrecipes]
      · rw [request_searchPublic, Query.append_eq hpublic]
    · intro q foods tools
      refine ⟨(q.pairs foods tools).suffix, ?_, ?_⟩
      · rw [← Query.append_eq hsuggestions]
        exact suggestionRequest_eq _ q foods tools
      · rw [← Query.append_eq hpublicSuggestions]
        exact suggestionRequest_eq _ q foods tools

/-- An empty text is told apart from a criterion that is not set, and an empty list is not. -/
theorem addresses_keep_arguments_empty :
    let q : RecipeSearchQuery := { search := some "", tags := some ["a&b", ""], page := some (-1) }
    '?' ∉ "home".toList ∧
    (searchRecipes q).request = .ok (.get "/api/recipes?page=-1&search=&tags=a%26b&tags=") ∧
    (∀ path, (searchRecipes { q with foods := some [] }).request = .ok (.get path) →
      "/api/recipes?page=-1&search=&tags=a%26b&tags=" = path) ∧
    (∀ path, (searchRecipes { q with search := none }).request = .ok (.get path) →
      "/api/recipes?page=-1&search=&tags=a%26b&tags=" ≠ path) ∧
    ∃ behind, (searchRecipes q).request = .ok (.get ("/api/recipes" ++ behind)) ∧
      (searchPublic "home" q).request =
        .ok (.get ("/api/explore/groups/home/recipes" ++ behind)) := by
  intro q
  have hmark : '?' ∉ "home".toList := by simp
  have hpath : Query.append Path.recipes q.pairs =
      "/api/recipes?page=-1&search=&tags=a%26b&tags=" := by
    decide +kernel
  obtain ⟨hkept, -, hpublic⟩ := addresses_keep_arguments
  obtain ⟨path, hasked, -, hiff⟩ := hkept q
  obtain rfl : path = "/api/recipes?page=-1&search=&tags=a%26b&tags=" := by
    rw [request_search, hpath] at hasked
    exact (congrArg Request.path (Except.ok.inj hasked)).symm
  refine ⟨hmark, hasked, ?_, ?_, (hpublic "home" hmark).1 q⟩
  · intro path' hpath'
    exact (hiff _ path' hpath').mpr rfl
  · intro path' hpath' heq
    have hsame := (hiff _ path' hpath').mp heq
    exact absurd (congrArg RecipeSearchQuery.search hsame) (by simp [RecipeSearchQuery.normal, q])

end Operation

end RecipeClient
