import RecipeClient.Data.Filter
import RecipeClient.Data.Recipe
import RecipeClient.Proofs.Json.UnknownMembers

/-!
# Editing keeps what is not modelled

Recipes, organizers and parts of filters are sent back after editing. Whatever is done to their
modelled members, the members that are not modelled are sent as they came, each under its own key,
and the modelled ones under theirs.

- `Extensible`: the types that keep the members that they do not model
- `Extensible.sends_edited`: what is sent back for an edited value
-/

namespace RecipeClient

open Json Json.Codec Json.Record

/-! ## What is read is passed over -/

@[simp]
theorem LogicalOperator.skips : LogicalOperator.codec.Skips := skips_named

@[simp]
theorem Relationship.skips : Relationship.codec.Skips := skips_alternatives

@[simp]
theorem FilterValue.skips : FilterValue.codec.Skips := skips_alternatives

/-! ## Types with a place for unknown members -/

theorem RecipeCategory.keepsUnknown : RecipeCategory.record.KeepsUnknown :=
  ⟨by decide, by simp [record], _, rfl, fun _ _ => rfl⟩

theorem RecipeTag.keepsUnknown : RecipeTag.record.KeepsUnknown :=
  ⟨by decide, by simp [record], _, rfl, fun _ _ => rfl⟩

theorem RecipeTool.keepsUnknown : RecipeTool.record.KeepsUnknown :=
  ⟨by decide, by simp [record], _, rfl, fun _ _ => rfl⟩

@[simp]
theorem RecipeCategory.skips : RecipeCategory.codec.Skips := Record.skips keepsUnknown.members

@[simp]
theorem RecipeTag.skips : RecipeTag.codec.Skips := Record.skips keepsUnknown.members

@[simp]
theorem RecipeTool.skips : RecipeTool.codec.Skips := Record.skips keepsUnknown.members

@[simp]
theorem RecipeAsset.skips : RecipeAsset.codec.Skips := Record.skips (by simp [record])

@[simp]
theorem RecipeComment.skips : RecipeComment.codec.Skips := Record.skips (by simp [record])

theorem Recipe.keepsUnknown : Recipe.record.KeepsUnknown :=
  ⟨by decide, by simp [record], _, rfl, fun _ _ => rfl⟩

theorem QueryFilterJSONPart.keepsUnknown : QueryFilterJSONPart.record.KeepsUnknown :=
  ⟨by decide, by simp [record], _, rfl, fun _ _ => rfl⟩

/-! ## Members that are left out -/

/-- The only member that is ever left out is an empty list of households. -/
def Json.Record.OmitsOnlyHouseholds {ρ : Type} (r : Record ρ) : Prop :=
  ∀ m ∈ r.members, ∀ v,
    m.omits v = true ↔ m.name = "householdsWithTool" ∧ m.codec.write v = .array []

theorem RecipeCategory.omitsOnlyHouseholds : RecipeCategory.record.OmitsOnlyHouseholds := by
  simp [OmitsOnlyHouseholds, record, Member.optional, Member.required]

theorem RecipeTag.omitsOnlyHouseholds : RecipeTag.record.OmitsOnlyHouseholds := by
  simp [OmitsOnlyHouseholds, record, Member.optional, Member.required]

theorem RecipeTool.omitsOnlyHouseholds : RecipeTool.record.OmitsOnlyHouseholds := by
  simp [OmitsOnlyHouseholds, record, Member.withDefault, Member.required, Member.listOmitted,
    Codec.list]

theorem Recipe.omitsOnlyHouseholds : Recipe.record.OmitsOnlyHouseholds := by
  simp [OmitsOnlyHouseholds, record, Member.optional, Member.withDefault, Member.listOrNull]

theorem QueryFilterJSONPart.omitsOnlyHouseholds :
    QueryFilterJSONPart.record.OmitsOnlyHouseholds := by
  simp [OmitsOnlyHouseholds, record, Member.optional]

/-! ## All types at once -/

/-- A type whose values keep the members that it does not model. -/
inductive Extensible where
  | recipe
  | category
  | tag
  | tool
  | filterPart
deriving DecidableEq

namespace Extensible

def Carrier : Extensible → Type
  | recipe => Recipe
  | category => RecipeCategory
  | tag => RecipeTag
  | tool => RecipeTool
  | filterPart => QueryFilterJSONPart

/-- The description of the type. -/
def record : (t : Extensible) → Record t.Carrier
  | recipe => Recipe.record
  | category => RecipeCategory.record
  | tag => RecipeTag.record
  | tool => RecipeTool.record
  | filterPart => QueryFilterJSONPart.record

theorem keepsUnknown (t : Extensible) : t.record.KeepsUnknown := by
  cases t with
  | recipe => exact Recipe.keepsUnknown
  | category => exact RecipeCategory.keepsUnknown
  | tag => exact RecipeTag.keepsUnknown
  | tool => exact RecipeTool.keepsUnknown
  | filterPart => exact QueryFilterJSONPart.keepsUnknown

theorem omitsOnlyHouseholds (t : Extensible) : t.record.OmitsOnlyHouseholds := by
  cases t with
  | recipe => exact Recipe.omitsOnlyHouseholds
  | category => exact RecipeCategory.omitsOnlyHouseholds
  | tag => exact RecipeTag.omitsOnlyHouseholds
  | tool => exact RecipeTool.omitsOnlyHouseholds
  | filterPart => exact QueryFilterJSONPart.omitsOnlyHouseholds

/-- What is sent for a value of a type whose unknown members are given by what they have under each
key. -/
structure Sends (t : Extensible) (b : t.Carrier) (has : String → Option Value → Prop)
    (sent : Entries) : Prop where
  object : t.record.codec.toValue b = .object sent
  /-- No key occurs twice. -/
  distinct : sent.keys.Nodup
  unknown : ∀ key, t.record.knows key = false → has key (sent.get? key)
  /-- A modelled member has its value, except that a tool without households does not list them. -/
  modelled : ∀ m ∈ t.record.members,
    (m.name = "householdsWithTool" ∧ m.codec.write (m.get b) = .array [] →
      sent.get? m.name = none) ∧
    (¬ (m.name = "householdsWithTool" ∧ m.codec.write (m.get b) = .array []) →
      sent.get? m.name = some (m.codec.toValue (m.get b)))

/-- A value whose unknown members are canonical ones of others is sent with those. -/
theorem sends_of_rest (t : Extensible) {b : t.Carrier} {unknown : Entries}
    (hrest : t.record.rest b = Entries.sorted (Value.canonicalMembers unknown))
    (hunknown : ∀ entry ∈ unknown, t.record.knows entry.1 = false)
    {has : String → Option Value → Prop}
    (hhas : ∀ key, t.record.knows key = false → has key ((unknown.get? key).map Value.canonical)) :
    t.Sends b has (t.record.sent b) where
  object := t.record.toValue_eq b
  distinct := (Entries.ascending_sorted _).nodup
  unknown key hkey := by
    rw [get?_sent_of_unknown hrest hkey]
    exact hhas key hkey
  modelled m hm := by
    have hnew : ∀ entry ∈ t.record.rest b, t.record.knows entry.1 = false := by
      rw [hrest]
      intro entry hentry
      obtain ⟨e, he, rfl⟩ := Value.exists_of_mem_canonical hentry
      exact hunknown e he
    rw [get?_sent_of_mem t.keepsUnknown.names hnew hm]
    have homits := t.omitsOnlyHouseholds m hm (m.get b)
    exact ⟨fun h => if_pos (homits.mpr h), fun h => if_neg fun ho => h (homits.mp ho)⟩

/-- Whatever is done to the modelled members of a value that was read or taken from an object, it is
sent with what the object had under every other key, and with nothing else. -/
theorem sends_edited (t : Extensible) (b : t.Carrier) :
    (∀ text a, t.record.codec.ofText text = .ok a → t.record.rest b = t.record.rest a →
      ∃ members sent, spelledMembers.whole text = .ok members ∧ t.Sends b (HasAt members) sent ∧
        ∀ entries : Entries, Value.ofText text = .ok (.object entries) →
          ∀ key, t.record.knows key = false → sent.get? key = entries.get? key) ∧
    (∀ (entries : Entries) a, t.record.codec.ofValue? (.object entries) = some a →
      t.record.rest b = t.record.rest a →
      ∃ sent, t.Sends b (fun key found => found = (entries.get? key).map Value.canonical) sent) := by
  constructor
  · intro text a hread hedit
    obtain ⟨members, read, hspelled, houtside, hrest⟩ := rest_of_ofText t.keepsUnknown hread
    have hsends := t.sends_of_rest (hedit.trans hrest) houtside.unknown_of_mem
      fun key hkey => houtside.hasAt hkey
    refine ⟨members, _, hspelled, hsends, ?_⟩
    intro entries hentries key hkey
    exact (hsends.unknown key hkey).unique (hasAt_of_ofText hspelled hentries key)
  · intro entries a htaken hedit
    have hrest := rest_of_ofValue? t.keepsUnknown htaken
    refine ⟨_, t.sends_of_rest (hedit.trans hrest) ?_ ?_⟩
    · intro entry hentry
      simpa using (List.mem_filter.mp hentry).2
    · intro key hkey
      rw [Entries.get?_filter (fun key => !t.record.knows key) (by rw [hkey]; rfl)]

/-- A tool that is renamed is sent with the unknown members that it came with, although they are
spelled almost like modelled ones and one of them came twice. -/
theorem sends_edited_renamed :
    let text := "\x7b\"id\": \"1\", \"name\": \"Stove\", \"Name\": 7, \"slug\": \"stove\"" ++
      ", \"Name\": [], \"households_with_tool\": [\"A\"]\x7d"
    ∃ a v, RecipeTool.codec.ofText text = .ok a ∧ Value.ofText text = .ok v ∧
      (v.member? "households_with_tool").bind Value.asStrings? = some ["A"] ∧
      ∀ key, RecipeTool.record.knows key = false →
        (RecipeTool.codec.toValue { a with name := "Oven" }).member? key = v.member? key := by
  intro text
  have hread : (RecipeTool.codec.ofText text).toOption.isSome = true := by decide +kernel
  have hmember : ((Value.ofText text).toOption.bind fun v =>
      (v.member? "households_with_tool").bind Value.asStrings?) = some ["A"] := by
    decide +kernel
  obtain ⟨a, ha⟩ := Option.isSome_iff_exists.mp hread
  obtain ⟨v, hv, hmember⟩ := Option.bind_eq_some_iff.mp hmember
  cases v with
  | object entries =>
    obtain ⟨members, sent, -, hsends, hkept⟩ :=
      (sends_edited .tool { a with name := "Oven" }).1 text a (ok_of_toOption ha) rfl
    refine ⟨a, .object entries, ok_of_toOption ha, ok_of_toOption hv, hmember, ?_⟩
    intro key hkey
    rw [show RecipeTool.codec.toValue _ = .object sent from hsends.object]
    exact hkept entries (ok_of_toOption hv) key hkey
  | _ => cases hmember

end Extensible

end RecipeClient
