import RecipeClient.Proofs.Calls
import RecipeClient.Proofs.SearchAddresses

/-!
# The addresses of pages

One object laid over another has under each key what the upper one has there, even if that is
`null`, and otherwise what the lower one has. A page of a list is asked for by page and page length
with the additional parameters laid over them. Members that are `null` after that contribute
nothing, so an additional `null` takes page or page length away.

- `Query.overlay_eq_ok_iff`: what one object laid over another is
- `Query.overlay_assoc`: laying objects over each other is associative
- `Operation.lists_overlaid`: all lists are asked for in the same way
-/

namespace RecipeClient

open Json (Codec Entries Value)

/-! ## Members that are not `null` -/

namespace Json

namespace Value

/-- Whether a value is `null`. -/
def isNull : Value → Bool
  | .null => true
  | .boolean _ | .number _ | .string _ | .array _ | .object _ => false

/-- Parameters are an object or `null`. -/
def IsParameters (v : Value) : Prop := v = .null ∨ ∃ members, v = .object members

end Value

namespace Entries

variable {entries : Entries}

/-- The entries that are not `null`. -/
def present (entries : Entries) : Entries := entries.filter fun entry => !entry.2.isNull

theorem present_cons (key : String) (v : Value) (entries : Entries) :
    present ((key, v) :: entries) =
      if v.isNull then entries.present else (key, v) :: entries.present := by
  rw [present, List.filter_cons]
  cases hv : v.isNull <;> simp [present]

/-- Of entries with distinct keys, those that are not `null` stay. -/
theorem get?_present (h : entries.keys.Nodup) (key : String) :
    entries.present.get? key = (entries.get? key).filter fun v => !v.isNull := by
  induction entries with
  | nil => rfl
  | cons head rest ih =>
    obtain ⟨k, v⟩ := head
    obtain ⟨hnew, hrest⟩ := List.nodup_cons.mp h
    have htail := ih hrest
    rw [present_cons, get?_cons]
    by_cases hk : k = key
    · subst hk
      -- no other entry has the key
      rw [get?_eq_none.mpr hnew] at htail ⊢
      cases hv : v.isNull <;> simp [get?_cons, htail, Option.filter, hv]
    · cases hv : v.isNull <;> simp [get?_cons, htail, hk]

theorem Ascending.present (h : entries.Ascending) : entries.present.Ascending := h.filter _

end Entries

end Json

namespace Query

/-- Members that are `null` contribute nothing. -/
theorem leavesOfMembers_present (members : Entries) :
    leavesOfMembers members.present = leavesOfMembers members := by
  induction members with
  | nil => rfl
  | cons head rest ih =>
    obtain ⟨key, value⟩ := head
    rw [Entries.present_cons]
    cases value with
    | null => simpa [Value.isNull, leavesOfMembers, leaves] using ih
    | boolean _ | number _ | string _ | array _ | object _ =>
      simp [Value.isNull, leavesOfMembers, ih]

/-! ## Objects laid over each other -/

theorem membersOf_canonical_eq_ok {v : Value} {entries : Entries} :
    membersOf v.canonical = .ok entries ↔
      v.IsParameters ∧ entries.Ascending ∧
        ∀ key, entries.get? key = (v.member? key).map Value.canonical := by
  cases v with
  | null =>
    constructor
    · intro h
      obtain rfl := Except.ok.inj h
      exact ⟨Or.inl rfl, List.Pairwise.nil, fun _ => rfl⟩
    · rintro ⟨-, hascending, hget⟩
      -- nothing is found in no entries
      have hnone : entries = [] := hascending.eq_of_get? List.Pairwise.nil hget
      exact congrArg Except.ok hnone.symm
  | object members =>
    have hget : ∀ key, Entries.get? (Entries.sorted (Value.canonicalMembers members)) key =
        ((Value.object members).member? key).map Value.canonical := Entries.get?_canonical members
    constructor
    · intro h
      obtain rfl := Except.ok.inj h
      exact ⟨Or.inr ⟨members, rfl⟩, Entries.ascending_sorted _, hget⟩
    · rintro ⟨-, hascending, hentries⟩
      have hsame := (Entries.ascending_sorted _).eq_of_get? hascending fun key =>
        (hget key).trans (hentries key).symm
      exact congrArg Except.ok hsame
  | boolean _ | number _ | string _ | array _ =>
    constructor
    · exact nofun
    · rintro ⟨hkind, -⟩
      exact absurd hkind (by simp [Value.IsParameters])

theorem overlay_eq_ok {base extra merged : Value} :
    overlay base extra = .ok merged ↔ ∃ below above, membersOf base.canonical = .ok below ∧
      membersOf extra.canonical = .ok above ∧ merged = .object (below.overlay above) := by
  rw [overlay, Json.bind_eq_ok]
  simp only [Json.bind_eq_ok, Json.pure_eq_ok]
  constructor
  · rintro ⟨below, hbelow, above, habove, rfl⟩
    exact ⟨below, above, hbelow, habove, rfl⟩
  · rintro ⟨below, above, hbelow, habove, rfl⟩
    exact ⟨below, hbelow, above, habove, rfl⟩

theorem exists_membersOf_canonical {v : Value} (h : v.IsParameters) :
    ∃ entries, membersOf v.canonical = .ok entries := by
  rcases h with rfl | ⟨members, rfl⟩
  · exact ⟨[], rfl⟩
  · exact ⟨_, rfl⟩

theorem ascending_overlay (below above : Entries) : (below.overlay above).Ascending :=
  Entries.ascending_sortedInto _ (Entries.ascending_sorted below)

/-- One object is laid over another exactly if both are parameters, and the outcome is the object
that has under each key what the upper one has there, and else what the lower one has. -/
theorem overlay_eq_ok_iff {base extra merged : Value} :
    overlay base extra = .ok merged ↔ base.IsParameters ∧ extra.IsParameters ∧
      ∃ entries : Entries, merged = .object entries ∧ entries.Ascending ∧
        ∀ key, entries.get? key =
          ((extra.member? key).or (base.member? key)).map Value.canonical := by
  have hget : ∀ {below above : Entries}, membersOf base.canonical = .ok below →
      membersOf extra.canonical = .ok above → ∀ key, (below.overlay above).get? key =
        ((extra.member? key).or (base.member? key)).map Value.canonical := by
    intro below above hbelow habove key
    obtain ⟨-, -, hbelow⟩ := membersOf_canonical_eq_ok.mp hbelow
    obtain ⟨-, -, habove⟩ := membersOf_canonical_eq_ok.mp habove
    rw [Entries.get?_overlay, hbelow, habove, Option.map_or]
  rw [overlay_eq_ok]
  constructor
  · rintro ⟨below, above, hbelow, habove, rfl⟩
    exact ⟨(membersOf_canonical_eq_ok.mp hbelow).1, (membersOf_canonical_eq_ok.mp habove).1, _, rfl,
      ascending_overlay below above, hget hbelow habove⟩
  · rintro ⟨hbase, hextra, entries, rfl, hascending, hentries⟩
    obtain ⟨below, hbelow⟩ := exists_membersOf_canonical hbase
    obtain ⟨above, habove⟩ := exists_membersOf_canonical hextra
    refine ⟨below, above, hbelow, habove, congrArg Value.object ?_⟩
    -- sorted entries are determined by what they have under each key
    apply hascending.eq_of_get? (ascending_overlay below above)
    intro key
    rw [hentries, hget hbelow habove]

theorem member?_of_overlay {base extra merged : Value} (h : overlay base extra = .ok merged)
    (key : String) : (merged.member? key).map Value.canonical =
      ((extra.member? key).or (base.member? key)).map Value.canonical := by
  obtain ⟨-, -, entries, rfl, -, hget⟩ := overlay_eq_ok_iff.mp h
  rw [Value.member?, hget, Option.map_map]
  congr 1
  exact funext Value.canonical_canonical

theorem isParameters_of_overlay {base extra merged : Value} (h : overlay base extra = .ok merged) :
    merged.IsParameters := by
  obtain ⟨-, -, entries, rfl, -⟩ := overlay_eq_ok_iff.mp h
  exact Or.inr ⟨entries, rfl⟩

theorem exists_overlay {base extra : Value} (hbase : base.IsParameters)
    (hextra : extra.IsParameters) : ∃ merged, overlay base extra = .ok merged := by
  obtain ⟨below, hbelow⟩ := exists_membersOf_canonical hbase
  obtain ⟨above, habove⟩ := exists_membersOf_canonical hextra
  exact ⟨_, overlay_eq_ok.mpr ⟨below, above, hbelow, habove, rfl⟩⟩

/-- Of three objects laid over each other, the highest that has a key counts. -/
def LaidOver (lowest middle highest merged : Value) : Prop :=
  lowest.IsParameters ∧ middle.IsParameters ∧ highest.IsParameters ∧
    ∃ entries : Entries, merged = .object entries ∧ entries.Ascending ∧
      ∀ key, entries.get? key =
        ((highest.member? key).or ((middle.member? key).or (lowest.member? key))).map
          Value.canonical

variable {a b c merged : Value}

theorem laidOver_of_left : (overlay a b >>= (overlay · c)) = .ok merged ↔
    LaidOver a b c merged := by
  rw [Json.bind_eq_ok]
  constructor
  · rintro ⟨first, hfirst, hsecond⟩
    obtain ⟨ha, hb, -⟩ := overlay_eq_ok_iff.mp hfirst
    obtain ⟨-, hc, entries, rfl, hascending, hget⟩ := overlay_eq_ok_iff.mp hsecond
    refine ⟨ha, hb, hc, entries, rfl, hascending, ?_⟩
    intro key
    rw [hget, Option.map_or, member?_of_overlay hfirst, ← Option.map_or]
  · rintro ⟨ha, hb, hc, entries, rfl, hascending, hget⟩
    obtain ⟨first, hfirst⟩ := exists_overlay ha hb
    refine ⟨first, hfirst, overlay_eq_ok_iff.mpr ?_⟩
    refine ⟨isParameters_of_overlay hfirst, hc, entries, rfl, hascending, ?_⟩
    intro key
    rw [hget, Option.map_or, ← member?_of_overlay hfirst, ← Option.map_or]

theorem laidOver_of_right : (overlay b c >>= (overlay a ·)) = .ok merged ↔
    LaidOver a b c merged := by
  rw [Json.bind_eq_ok]
  constructor
  · rintro ⟨first, hfirst, hsecond⟩
    obtain ⟨hb, hc, -⟩ := overlay_eq_ok_iff.mp hfirst
    obtain ⟨ha, -, entries, rfl, hascending, hget⟩ := overlay_eq_ok_iff.mp hsecond
    refine ⟨ha, hb, hc, entries, rfl, hascending, ?_⟩
    intro key
    rw [hget, Option.map_or, member?_of_overlay hfirst, ← Option.map_or, Option.or_assoc]
  · rintro ⟨ha, hb, hc, entries, rfl, hascending, hget⟩
    obtain ⟨first, hfirst⟩ := exists_overlay hb hc
    refine ⟨first, hfirst, overlay_eq_ok_iff.mpr ?_⟩
    refine ⟨ha, isParameters_of_overlay hfirst, entries, rfl, hascending, ?_⟩
    intro key
    rw [hget, ← Option.or_assoc, Option.map_or, ← member?_of_overlay hfirst, ← Option.map_or]

/-- Laying objects over each other is associative, up to which of several mistakes is reported. -/
theorem overlay_assoc (a b c : Value) :
    (overlay a b >>= (overlay · c)).toOption = (overlay b c >>= (overlay a ·)).toOption := by
  cases hleft : overlay a b >>= (overlay · c) with
  | ok merged =>
    have hright : (overlay b c >>= (overlay a ·)) = .ok merged :=
      laidOver_of_right.mpr (laidOver_of_left.mp hleft)
    rw [hright]
  | error bad =>
    cases hright : overlay b c >>= (overlay a ·) with
    | error bad' => rfl
    | ok merged =>
      -- what can be laid over each other in one order can be so in the other
      have hok := laidOver_of_left.mpr (laidOver_of_right.mp hright)
      exact absurd (hleft.symm.trans hok) nofun

/-- Laying nothing over parameters, or parameters over nothing, gives their canonical form. -/
theorem overlay_neutral {nothing o : Value} (hnothing : nothing = .null ∨ nothing = .object [])
    (ho : ∃ members, o = .object members) :
    overlay nothing o = .ok o.canonical ∧ overlay o nothing = .ok o.canonical := by
  obtain ⟨members, rfl⟩ := ho
  have hmember : ∀ key, nothing.member? key = none := by
    intro key
    rcases hnothing with rfl | rfl <;> rfl
  have hparameters : nothing.IsParameters := hnothing.imp id fun h => ⟨[], h⟩
  have hget : ∀ key, Entries.get? (Entries.sorted (Value.canonicalMembers members)) key =
      ((Value.object members).member? key).map Value.canonical := Entries.get?_canonical members
  constructor
  · apply overlay_eq_ok_iff.mpr
    refine ⟨hparameters, Or.inr ⟨members, rfl⟩, _, rfl, Entries.ascending_sorted _, ?_⟩
    intro key
    rw [hmember, Option.or_none, hget]
  · apply overlay_eq_ok_iff.mpr
    refine ⟨Or.inr ⟨members, rfl⟩, hparameters, _, rfl, Entries.ascending_sorted _, ?_⟩
    intro key
    rw [hmember, Option.none_or, hget]

end Query

/-! ## Pages -/

namespace Operation

/-- What asks for a page before anything is added: page and page length. -/
def paging (page perPage : Int64) : Value :=
  .object [("page", Codec.integer.toValue page), ("perPage", Codec.integer.toValue perPage)]

/-- The operation lists a page with additional parameters, and the list has a path of its own. -/
inductive Lists (page perPage : Int64) (parameters : Value) : Operation → String → Prop where
  | collection (c : Collection) :
      Lists page perPage parameters (.list (.collection c) page perPage parameters) c.base
  | households : Lists page perPage parameters (.list .households page perPage parameters)
      Path.households
  | publicRecipes {group : String} (unmarked : '?' ∉ group.toList) :
      Lists page perPage parameters (.list (.publicRecipes group) page perPage parameters)
        (Path.publicRecipes group)
  | events : Lists page perPage parameters (.listEvents page perPage parameters)
      Path.timelineEvents
  | members : Lists page perPage parameters (.listMembers page perPage parameters) Path.members

section Requests

variable {page perPage : Int64} {parameters : Value} {o : Operation} {base : String}

theorem Lists.request_eq (h : Lists page perPage parameters o base) :
    o.request = pageRequest base page perPage parameters := by
  cases h <;> rfl

theorem Lists.unmarked (h : Lists page perPage parameters o base) : '?' ∉ base.toList := by
  cases h with
  | collection c => cases c <;> decide
  | households => decide
  | publicRecipes unmarked => exact (mark_not_mem_public unmarked).1
  | events => decide
  | members => decide

end Requests

/-- The members that a page is asked for with: the additional ones, and page and page length where
those have neither, all but those that are `null`. -/
structure Selects (page perPage : Int64) (parameters : Value) (members : Entries) : Prop where
  ascending : members.Ascending
  get?_eq : ∀ key, members.get? key =
    (((parameters.member? key).or ((paging page perPage).member? key)).map Value.canonical).filter
      fun v => !v.isNull

theorem exists_selects (page perPage : Int64) {parameters : Value}
    (h : parameters.IsParameters) : ∃ merged members, Selects page perPage parameters members ∧
      Query.overlay (paging page perPage) parameters = .ok merged ∧
      Query.ofParameters merged = .ok (Query.leavesOfMembers members) := by
  have hpaging : (paging page perPage).IsParameters := Or.inr ⟨_, rfl⟩
  obtain ⟨merged, hmerged⟩ := Query.exists_overlay hpaging h
  obtain ⟨-, -, entries, rfl, hascending, hget⟩ := Query.overlay_eq_ok_iff.mp hmerged
  -- what was laid over each other is in canonical form already
  have hcanonical : Entries.sorted (Value.canonicalMembers entries) = entries := by
    apply (Entries.ascending_sorted _).eq_of_get? hascending
    intro key
    rw [Entries.get?_canonical, hget, Option.map_map]
    congr 1
    exact funext Value.canonical_canonical
  refine ⟨_, entries.present, ⟨hascending.present, ?_⟩, hmerged, ?_⟩
  · intro key
    rw [Entries.get?_present hascending.nodup, hget]
  · rw [Query.ofParameters_object, Query.pairsOf, hcanonical, Query.leavesOfMembers_present]

theorem request_of_lists {page perPage : Int64} {parameters merged : Value} {pairs : Query}
    (hmerged : Query.overlay (paging page perPage) parameters = .ok merged)
    (hpairs : Query.ofParameters merged = .ok pairs) {o : Operation} {base : String}
    (h : Lists page perPage parameters o base) :
    o.request = .ok (.get (base ++ pairs.suffix)) := by
  have hselecting : Request.selecting base merged = .ok (.get (Query.append base pairs)) := by
    rw [Request.selecting, Query.withParameters, hpairs]
    rfl
  rw [h.request_eq, ← Query.append_eq h.unmarked, ← hselecting]
  show Query.overlay (paging page perPage) parameters >>= Request.selecting base = _
  rw [hmerged, Json.ok_bind]

theorem decode?_suffix (pairs : Query) :
    Query.decode? (Query.behindMark pairs.suffix.toList) = some pairs := by
  have hempty : '?' ∉ "".toList := by decide
  have hdecoded := Query.decode?_append hempty pairs
  rwa [Query.append_eq hempty, String.empty_append] at hdecoded

/-- One object laid over another has under each key what the upper one has there, `null` included,
or else what the lower one has; this is associative up to which mistake is reported, and nothing
laid over or under an object leaves it. So every page of every list is asked for by the same query
behind the path of the list: its pairs are those of page and page length with the additional
parameters laid over them, where a member that is `null` has gone. -/
theorem lists_overlaid :
    (∀ base extra merged, Query.overlay base extra = .ok merged ↔
      base.IsParameters ∧ extra.IsParameters ∧
        ∃ entries : Entries, merged = .object entries ∧ entries.Ascending ∧
          ∀ key, entries.get? key =
            ((extra.member? key).or (base.member? key)).map Value.canonical) ∧
    (∀ a b c, (Query.overlay a b >>= (Query.overlay · c)).toOption =
      (Query.overlay b c >>= (Query.overlay a ·)).toOption) ∧
    (∀ nothing members, nothing = .null ∨ nothing = .object [] →
      Query.overlay nothing (.object members) = .ok (Value.object members).canonical ∧
        Query.overlay (.object members) nothing = .ok (Value.object members).canonical) ∧
    ∀ page perPage parameters, parameters.IsParameters → ∃ merged members,
      Selects page perPage parameters members ∧
      Query.overlay (paging page perPage) parameters = .ok merged ∧
      Query.ofParameters merged = .ok (Query.leavesOfMembers members) ∧
      Query.decode? (Query.behindMark (Query.leavesOfMembers members).suffix.toList) =
        some (Query.leavesOfMembers members) ∧
      ∀ o base, Lists page perPage parameters o base → '?' ∉ base.toList ∧
        ∀ {σ : Type} (line : Line σ) (state : σ),
          (o.perform.exchanges line state).map (·.request) =
            [.get (base ++ (Query.leavesOfMembers members).suffix)] := by
  refine ⟨fun _ _ _ => Query.overlay_eq_ok_iff, Query.overlay_assoc, ?_, ?_⟩
  · intro nothing members hnothing
    exact Query.overlay_neutral hnothing ⟨members, rfl⟩
  · intro page perPage parameters hparameters
    obtain ⟨merged, members, hselects, hmerged, hpairs⟩ :=
      exists_selects page perPage hparameters
    refine ⟨merged, members, hselects, hmerged, hpairs, decode?_suffix _, ?_⟩
    intro o base hlists
    refine ⟨hlists.unmarked, ?_⟩
    intro σ line state
    rw [exchanges_perform (request_of_lists hmerged hpairs hlists)]
    rfl

/-- An additional `null` takes the page away, and an additional page length replaces the other. -/
theorem lists_overlaid_null :
    let parameters : Value := .object
      [("search", .string "a b"), ("page", .null), ("perPage", .number (.integer 10))]
    let tools : Operation := .list (.collection .tools) 2 (-1) parameters
    let home : Operation := .list (.publicRecipes "home") 2 (-1) parameters
    parameters.IsParameters ∧ '?' ∉ "home".toList ∧
      (tools.perform.exchanges Script.line {}).map (·.request) =
        [.get "/api/organizers/tools?perPage=10&search=a%20b"] ∧
      (home.perform.exchanges Script.line {}).map (·.request) =
        [.get "/api/explore/groups/home/recipes?perPage=10&search=a%20b"] := by
  intro parameters tools home
  have hparameters : parameters.IsParameters := Or.inr ⟨_, rfl⟩
  have hunmarked : '?' ∉ "home".toList := by simp
  obtain ⟨merged, members, -, hmerged, hpairs, -, hasked⟩ :=
    lists_overlaid.2.2.2 2 (-1) parameters hparameters
  obtain ⟨-, htools⟩ := hasked tools _ (.collection .tools)
  obtain ⟨-, hhome⟩ := hasked home _ (.publicRecipes hunmarked)
  have hlaid : Query.overlay (paging 2 (-1)) parameters = .ok (.object
      [("page", .null), ("perPage", .number (.integer 10)), ("search", .string "a b")]) := rfl
  obtain rfl := Except.ok.inj (hlaid.symm.trans hmerged)
  have hleaves : Query.leavesOfMembers members = [("perPage", "10"), ("search", "a b")] :=
    (Except.ok.inj hpairs).symm.trans (by decide +kernel)
  rw [hleaves] at htools hhome
  have hsuffix : Query.suffix [("perPage", "10"), ("search", "a b")] =
      "?perPage=10&search=a%20b" := by decide +kernel
  rw [hsuffix] at htools hhome
  exact ⟨hparameters, hunmarked, htools Script.line {}, hhome Script.line {}⟩

end Operation

end RecipeClient
