import RecipeClient.Proofs.Editing
import RecipeClient.Proofs.Json.ObjectReading
import RecipeClient.Proofs.Rewriting

/-!
# Narrow views of a record

Some records are a part of others: what is sent to change a plan entry is a part of the entry, the
short form of a recipe is a part of the whole one. Both are described on their own, and an object
that is read as the full record is read as the narrow one as well, with the values that the full
record has.

- `Record.Narrows`: each member of one record shows a member of another
- `Record.ofText_narrow`: an object that is read as the other is read as the one
- `narrow_views_agree`: the records of which the client has narrow forms
-/

namespace RecipeClient

open Json Json.Codec Json.Record

/-! ## Parts of records -/

namespace Json

variable {ρ σ : Type} {view : ρ → σ}

/-- A member of a narrow record shows a member of the full one: it has the same name, reads what the
other reads, and stands for a missing value as the other does. -/
structure Member.Shows (n : Member σ) (m : Member ρ) (view : ρ → σ) : Prop where
  name : n.name = m.name
  read {depth : Nat} {text rest : List Char} {a : ρ} :
    m.codec.read depth text = .ok (m.get a, rest) →
      n.codec.read depth text = .ok (n.get (view a), rest)
  missing {a : ρ} :
    m.absence.inObject? = some (m.get a) → n.absence.inObject? = some (n.get (view a))

namespace Record

/-- A record without a place for unknown members whose members all show one of another record. -/
structure Narrows (s : Record σ) (r : Record ρ) (view : ρ → σ) : Prop where
  closed : s.remainder = none
  members : ∀ n ∈ s.members, ∃ m ∈ r.members, n.Shows m view

variable {s : Record σ} {r : Record ρ}

theorem Narrows.knows (h : s.Narrows r view) {key : String} (hkey : s.knows key = true) :
    r.knows key = true := by
  obtain ⟨n, hn, hname⟩ := List.any_eq_true.mp hkey
  obtain ⟨m, hm, hshows⟩ := h.members n hn
  rw [← eq_of_beq hname, hshows.name]
  exact knows_name hm

/-- The members of an object that make the full record make the narrow one. -/
theorem MadeOf.narrow (h : s.Narrows r view) {depth : Nat} {members : List (String × List Char)}
    {a : ρ} (hmade : r.MadeOf depth members a) : s.MadeOf depth members (view a) where
  once := by
    have hkeys : s.knownKeys members = (r.knownKeys members).filter s.knows := by
      rw [knownKeys, knownKeys, List.filter_filter]
      apply List.filter_congr
      intro key _
      cases hkey : s.knows key with
      | true => rw [h.knows hkey, Bool.and_true]
      | false => rw [Bool.false_and]
    rw [hkeys]
    exact hmade.once.filter _
  present n hn text hmem := by
    obtain ⟨m, hm, hshows⟩ := h.members n hn
    rw [hshows.name] at hmem
    obtain ⟨rest, hread⟩ := hmade.present m hm text hmem
    exact ⟨rest, hshows.read hread⟩
  missing n hn hmissing := by
    obtain ⟨m, hm, hshows⟩ := h.members n hn
    rw [hshows.name] at hmissing
    exact hshows.missing (hmade.missing m hm hmissing)
  unknown hkeeps := by
    rw [h.closed] at hkeeps
    cases hkeeps

/-- An object that is read as the full record is read as the narrow one, with the same values. -/
theorem ofText_narrow (h : s.Narrows r view) {height low : Nat} (hr : r.Lawful height)
    (hskips : ∀ m ∈ r.members, m.Skips) (hs : s.Lawful low) (hpasses : ∀ n ∈ s.members, n.Skips)
    {text : String} (htext : StartsObject text) {a : ρ} (hread : r.codec.ofText text = .ok a) :
    s.codec.ofText text = .ok (view a) := by
  obtain ⟨front, rest, members, hfront, hskipped, hend, hmade⟩ :=
    (ofText_object_iff hr hskips htext).mp hread
  exact (ofText_object_iff hs hpasses htext).mpr
    ⟨front, rest, members, hfront, hskipped, hend, hmade.narrow h⟩

/-- The member at a place of the full record is shown by one that reads the same values, has the
same value for a missing one, and the same value in the narrow record. -/
theorem shows_at {β : Type} {codec : Codec β} {absence absence' : Absence β} {name : String}
    {omits omits' : β → Bool} {get : ρ → β} {set : ρ → β → ρ} {get' : σ → β} {set' : σ → β → σ}
    (i : Nat) (hm : r.members[i]? = some ⟨name, codec, absence, omits, get, set⟩)
    (habsence : absence'.inObject? = absence.inObject?) (hget : ∀ a, get' (view a) = get a) :
    ∃ m ∈ r.members, Member.Shows ⟨name, codec, absence', omits', get', set'⟩ m view := by
  refine ⟨_, List.mem_of_getElem? hm, rfl, ?_, ?_⟩
  · intro depth text rest a hread
    simpa only [hget] using hread
  · intro a hmissing
    simpa only [hget, habsence] using hmissing

end Record

end Json

/-! ## The records and their narrow forms -/

/-- The short form of a recipe. -/
def Recipe.toSummary (r : Recipe) : RecipeSummary where
  id := r.id
  name := r.name
  slug := r.slug
  description := r.description
  recipeCategory := r.recipeCategory
  tags := r.tags
  tools := r.tools
  rating := r.rating
  totalTime := r.totalTime
  lastMade := r.lastMade

/-- The household without the people in it. -/
def HouseholdInDB.toSummary (h : HouseholdInDB) : HouseholdSummary where
  id := h.id
  name := h.name
  slug := h.slug
  groupId := h.groupId
  preferences := h.preferences

/-- The rule as it is stored. -/
def PlanRulesOut.toSave (rule : PlanRulesOut) : PlanRulesSave where
  day := rule.day
  entryType := rule.entryType
  queryFilterString := rule.queryFilterString
  groupId := rule.groupId
  householdId := rule.householdId

/-- What is sent to create a rule like this one. -/
def PlanRulesOut.toCreate (rule : PlanRulesOut) : PlanRulesCreate where
  day := rule.day
  entryType := rule.entryType
  queryFilterString := rule.queryFilterString

/-! ## Each narrow form shows the full one -/

theorem UpdatePlanEntry.narrows :
    UpdatePlanEntry.record.Narrows ReadPlanEntry.record ReadPlanEntry.toUpdate := by
  refine ⟨rfl, ?_⟩
  simp only [record, List.forall_mem_cons]
  exact ⟨shows_at 0 rfl rfl fun _ => rfl, shows_at 1 rfl rfl fun _ => rfl,
    shows_at 2 rfl rfl fun _ => rfl, shows_at 3 rfl rfl fun _ => rfl,
    shows_at 4 rfl rfl fun _ => rfl, shows_at 5 rfl rfl fun _ => rfl,
    shows_at 6 rfl rfl fun _ => rfl, shows_at 7 rfl rfl fun _ => rfl, List.forall_mem_nil _⟩

theorem RecipeToolCreate.narrows :
    RecipeToolCreate.record.Narrows RecipeTool.record RecipeTool.toCreate := by
  refine ⟨rfl, ?_⟩
  simp only [record, List.forall_mem_cons]
  exact ⟨shows_at 1 rfl rfl fun _ => rfl, shows_at 3 rfl rfl fun _ => rfl, List.forall_mem_nil _⟩

theorem RecipeSummary.narrows :
    RecipeSummary.record.Narrows Recipe.record Recipe.toSummary := by
  refine ⟨rfl, ?_⟩
  simp only [record, List.forall_mem_cons]
  exact ⟨shows_at 0 rfl rfl fun _ => rfl, shows_at 4 rfl rfl fun _ => rfl,
    shows_at 5 rfl rfl fun _ => rfl, shows_at 14 rfl rfl fun _ => rfl,
    shows_at 15 rfl rfl fun _ => rfl, shows_at 16 rfl rfl fun _ => rfl,
    shows_at 17 rfl rfl fun _ => rfl, shows_at 18 rfl rfl fun _ => rfl,
    shows_at 10 rfl rfl fun _ => rfl, shows_at 24 rfl rfl fun _ => rfl, List.forall_mem_nil _⟩

theorem HouseholdSummary.narrows :
    HouseholdSummary.record.Narrows HouseholdInDB.record HouseholdInDB.toSummary := by
  refine ⟨rfl, ?_⟩
  simp only [record, List.forall_mem_cons]
  exact ⟨shows_at 0 rfl rfl fun _ => rfl, shows_at 1 rfl rfl fun _ => rfl,
    shows_at 2 rfl rfl fun _ => rfl, shows_at 3 rfl rfl fun _ => rfl,
    shows_at 7 rfl rfl fun _ => rfl, List.forall_mem_nil _⟩

theorem PlanRulesSave.narrows :
    PlanRulesSave.record.Narrows PlanRulesOut.record PlanRulesOut.toSave := by
  refine ⟨rfl, ?_⟩
  simp only [record, List.forall_mem_cons]
  exact ⟨shows_at 1 rfl rfl fun _ => rfl, shows_at 2 rfl rfl fun _ => rfl,
    shows_at 3 rfl rfl fun _ => rfl, shows_at 4 rfl rfl fun _ => rfl,
    shows_at 5 rfl rfl fun _ => rfl, List.forall_mem_nil _⟩

theorem PlanRulesCreate.narrows :
    PlanRulesCreate.record.Narrows PlanRulesOut.record PlanRulesOut.toCreate := by
  refine ⟨rfl, ?_⟩
  simp only [record, List.forall_mem_cons]
  exact ⟨shows_at 1 rfl rfl fun _ => rfl, shows_at 2 rfl rfl fun _ => rfl,
    shows_at 3 rfl rfl fun _ => rfl, List.forall_mem_nil _⟩

/-! ## What is read is passed over -/

@[simp]
theorem PlanEntryType.skips : PlanEntryType.codec.Skips := skips_named

@[simp]
theorem PlanRulesDay.skips : PlanRulesDay.codec.Skips := skips_named

@[simp]
theorem PlanRulesType.skips : PlanRulesType.codec.Skips := skips_named

@[simp]
theorem QueryFilterJSONPart.skips : QueryFilterJSONPart.codec.Skips :=
  Record.skips keepsUnknown.members

@[simp]
theorem QueryFilterJSON.skips : QueryFilterJSON.codec.Skips := Record.skips (by simp [record])

@[simp]
theorem ReadHouseholdPreferences.skips : ReadHouseholdPreferences.codec.Skips :=
  Record.skips (by simp [record])

theorem HouseholdSummary.members_skip : ∀ m ∈ HouseholdSummary.record.members, m.Skips := by
  simp [record]

@[simp]
theorem HouseholdSummary.skips : HouseholdSummary.codec.Skips := Record.skips members_skip

theorem RecipeSummary.members_skip : ∀ m ∈ RecipeSummary.record.members, m.Skips := by
  simp [record]

@[simp]
theorem RecipeSummary.skips : RecipeSummary.codec.Skips := Record.skips members_skip

/-! ## Reading the narrow forms -/

/-- An object that is read as a plan entry, a tool, a recipe, a household or a rule is read as each
narrow form of it, with the values that it was read with. -/
theorem narrow_views_agree (text : String) :
    (∀ entry, StartsObject text → ReadPlanEntry.codec.ofText text = .ok entry →
      UpdatePlanEntry.codec.ofText text = .ok entry.toUpdate) ∧
    (∀ tool, RecipeTool.codec.ofText text = .ok tool →
      RecipeToolCreate.codec.ofText text = .ok tool.toCreate) ∧
    (∀ recipe, Recipe.codec.ofText text = .ok recipe →
      RecipeSummary.codec.ofText text = .ok recipe.toSummary) ∧
    (∀ household, StartsObject text → HouseholdInDB.codec.ofText text = .ok household →
      HouseholdSummary.codec.ofText text = .ok household.toSummary) ∧
    (∀ rule, StartsObject text → PlanRulesOut.codec.ofText text = .ok rule →
      PlanRulesSave.codec.ofText text = .ok rule.toSave ∧
        PlanRulesCreate.codec.ofText text = .ok rule.toCreate) := by
  refine ⟨?entry, ?tool, ?recipe, ?household, ?rule⟩
  case entry =>
    intro entry htext hread
    exact ofText_narrow UpdatePlanEntry.narrows (@ReadPlanEntry.lawful_record 0)
      (by simp [ReadPlanEntry.record]) (@UpdatePlanEntry.lawful_record 0)
      (by simp [UpdatePlanEntry.record]) htext hread
  case tool =>
    intro tool hread
    -- a tool keeps unknown members, so its text is one of an object
    have htext := startsObject_of_ofText rfl hread
    exact ofText_narrow RecipeToolCreate.narrows (@RecipeTool.lawful_record 0)
      RecipeTool.keepsUnknown.members (@RecipeToolCreate.lawful_record 0)
      (by simp [RecipeToolCreate.record]) htext hread
  case recipe =>
    intro recipe hread
    have htext := startsObject_of_ofText rfl hread
    exact ofText_narrow RecipeSummary.narrows (@Recipe.lawful_record 0)
      Recipe.keepsUnknown.members (@RecipeSummary.lawful_record 0)
      RecipeSummary.members_skip htext hread
  case household =>
    intro household htext hread
    exact ofText_narrow HouseholdSummary.narrows (@HouseholdInDB.lawful_record 0)
      (by simp [HouseholdInDB.record]) (@HouseholdSummary.lawful_record 0)
      HouseholdSummary.members_skip htext hread
  case rule =>
    intro rule htext hread
    have hskips : ∀ m ∈ PlanRulesOut.record.members, m.Skips := by simp [PlanRulesOut.record]
    constructor
    · exact ofText_narrow PlanRulesSave.narrows (@PlanRulesOut.lawful_record 0) hskips
        (@PlanRulesSave.lawful_record 0) (by simp [PlanRulesSave.record]) htext hread
    · exact ofText_narrow PlanRulesCreate.narrows (@PlanRulesOut.lawful_record 0) hskips
        (@PlanRulesCreate.lawful_record 0) (by simp [PlanRulesCreate.record]) htext hread

/-- An entry with its members in another order, one of them unknown and twice there, shows what is
sent to change it; one object may be a tool, a recipe, a household and a rule. -/
theorem narrow_views_agree_reordered :
    let planned := "\x7b\"userId\": \"u\", \"date\": \"2024-02-29\", \"x\": [1], " ++
      "\"groupId\": \"g\", \"x\": 1e999, \"recipe\": \x7b\"tags\": null\x7d, " ++
      "\"householdId\": \"h\", \"id\": 7\x7d"
    let shared := " \x7b\"name\": \"N\", \"slug\": \"n\", \"tags\": [], \"id\": \"1\", " ++
      "\"groupId\": \"g\", \"householdId\": \"h\", \"preferences\": \x7b\"id\": \"p\"\x7d\x7d"
    ∃ entry tool recipe household rule,
      ReadPlanEntry.codec.ofText planned = .ok entry ∧ RecipeTool.codec.ofText shared = .ok tool ∧
      Recipe.codec.ofText shared = .ok recipe ∧ HouseholdInDB.codec.ofText shared = .ok household ∧
      PlanRulesOut.codec.ofText shared = .ok rule ∧
      UpdatePlanEntry.codec.ofText planned = .ok entry.toUpdate ∧
      RecipeToolCreate.codec.ofText shared = .ok tool.toCreate ∧
      RecipeSummary.codec.ofText shared = .ok recipe.toSummary ∧
      HouseholdSummary.codec.ofText shared = .ok household.toSummary ∧
      PlanRulesSave.codec.ofText shared = .ok rule.toSave ∧
      PlanRulesCreate.codec.ofText shared = .ok rule.toCreate := by
  intro planned shared
  have hentry : (ReadPlanEntry.codec.ofText planned).toOption.isSome = true := by decide +kernel
  have htool : (RecipeTool.codec.ofText shared).toOption.isSome = true := by decide +kernel
  have hrecipe : (Recipe.codec.ofText shared).toOption.isSome = true := by decide +kernel
  have hhousehold : (HouseholdInDB.codec.ofText shared).toOption.isSome = true := by decide +kernel
  have hrule : (PlanRulesOut.codec.ofText shared).toOption.isSome = true := by decide +kernel
  obtain ⟨entry, hentry⟩ := Option.isSome_iff_exists.mp hentry
  obtain ⟨tool, htool⟩ := Option.isSome_iff_exists.mp htool
  obtain ⟨recipe, hrecipe⟩ := Option.isSome_iff_exists.mp hrecipe
  obtain ⟨household, hhousehold⟩ := Option.isSome_iff_exists.mp hhousehold
  obtain ⟨rule, hrule⟩ := Option.isSome_iff_exists.mp hrule
  have hplanned : StartsObject planned := by decide +kernel
  have hshared : StartsObject shared := by decide +kernel
  obtain ⟨hupdate, -⟩ := narrow_views_agree planned
  obtain ⟨-, hcreate, hsummary, hhouse, hrules⟩ := narrow_views_agree shared
  obtain ⟨hsave, hnew⟩ := hrules rule hshared (ok_of_toOption hrule)
  exact ⟨entry, tool, recipe, household, rule, ok_of_toOption hentry, ok_of_toOption htool,
    ok_of_toOption hrecipe, ok_of_toOption hhousehold, ok_of_toOption hrule,
    hupdate entry hplanned (ok_of_toOption hentry), hcreate tool (ok_of_toOption htool),
    hsummary recipe (ok_of_toOption hrecipe), hhouse household hshared (ok_of_toOption hhousehold),
    hsave, hnew⟩

end RecipeClient
