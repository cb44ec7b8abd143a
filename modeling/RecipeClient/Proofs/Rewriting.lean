import RecipeClient.Data.Catalogue
import RecipeClient.Proofs.Json.RecordRestoring

/-!
# What was read is read again

Every type of the catalogue is lawful, and so are the pages of each: a text that is read as a value
may be spelled in many ways, but the text that is written for the value is read as the same value.
The height of a type is the number of containers that it may open by itself, all far below the
limit on nesting.

- `Listed.ofText_written`: what is written for a value that was read is read as that value
-/

namespace RecipeClient

open Json Json.Codec Json.Record

variable {height : Nat}

/-! ## Names -/

@[simp]
theorem Parser.lawful : Parser.codec.Lawful height := lawful_named

@[simp]
theorem LogicalOperator.lawful : LogicalOperator.codec.Lawful height := lawful_named

@[simp]
theorem RelationalKeyword.lawful : RelationalKeyword.codec.Lawful height := lawful_named

@[simp]
theorem RelationalOperator.lawful : RelationalOperator.codec.Lawful height := lawful_named

@[simp]
theorem PlanEntryType.lawful : PlanEntryType.codec.Lawful height := lawful_named

@[simp]
theorem PlanRulesDay.lawful : PlanRulesDay.codec.Lawful height := lawful_named

@[simp]
theorem PlanRulesType.lawful : PlanRulesType.codec.Lawful height := lawful_named

@[simp]
theorem PlanEntryType.restores {depth : Nat} (a : PlanEntryType) : PlanEntryType.codec.Restores depth a :=
  restores_named (by cases a <;> rfl)

@[simp]
theorem PlanRulesDay.restores {depth : Nat} (a : PlanRulesDay) : PlanRulesDay.codec.Restores depth a :=
  restores_named (by cases a <;> rfl)

@[simp]
theorem PlanRulesType.restores {depth : Nat} (a : PlanRulesType) : PlanRulesType.codec.Restores depth a :=
  restores_named (by cases a <;> rfl)

/-! ## Organizers -/

theorem RecipeCategory.lawful_record : RecipeCategory.record.Lawful height :=
  .of_open rfl (by decide) (by simp [record]) (fun _ _ => rfl) (fun _ _ => rfl)
    (by rintro ⟨⟩; rfl)

@[simp]
theorem RecipeCategory.lawful : RecipeCategory.codec.Lawful (height + 1) := lawful_record.codec

theorem RecipeTag.lawful_record : RecipeTag.record.Lawful height :=
  .of_open rfl (by decide) (by simp [record]) (fun _ _ => rfl) (fun _ _ => rfl)
    (by rintro ⟨⟩; rfl)

@[simp]
theorem RecipeTag.lawful : RecipeTag.codec.Lawful (height + 1) := lawful_record.codec

@[simp]
theorem RecipeTool.lawful_record : RecipeTool.record.Lawful (height + 1) :=
  .of_open rfl (by decide) (by simp [record]) (fun _ _ => rfl) (fun _ _ => rfl)
    (by rintro ⟨⟩; rfl)

@[simp]
theorem RecipeTool.lawful : RecipeTool.codec.Lawful (height + 2) := lawful_record.codec

theorem RecipeToolCreate.lawful_record : RecipeToolCreate.record.Lawful (height + 1) :=
  .of_closed rfl (by decide) (by simp [record]) (fun _ => rfl) (by rintro ⟨⟩; rfl)

@[simp]
theorem RecipeToolCreate.lawful : RecipeToolCreate.codec.Lawful (height + 2) := lawful_record.codec

/-! ## Recipes -/

theorem RecipeAsset.lawful_record : RecipeAsset.record.Lawful height :=
  .of_closed rfl (by decide) (by simp [record]) (fun _ => rfl) (by rintro ⟨⟩; rfl)

@[simp]
theorem RecipeAsset.lawful : RecipeAsset.codec.Lawful (height + 1) := lawful_record.codec

theorem RecipeComment.lawful_record : RecipeComment.record.Lawful height :=
  .of_closed rfl (by decide) (by simp [record]) (fun _ => rfl) (by rintro ⟨⟩; rfl)

@[simp]
theorem RecipeComment.lawful : RecipeComment.codec.Lawful (height + 1) := lawful_record.codec

theorem Recipe.lawful_record : Recipe.record.Lawful (height + 3) :=
  .of_open rfl (by decide) (by simp [record]) (fun _ _ => rfl) (fun _ _ => rfl)
    (by rintro ⟨⟩; rfl)

@[simp]
theorem Recipe.lawful : Recipe.codec.Lawful (height + 4) := lawful_record.codec

theorem RecipeSummary.lawful_record : RecipeSummary.record.Lawful (height + 3) :=
  .of_closed rfl (by decide) (by simp [record]) (fun _ => rfl) (by rintro ⟨⟩; rfl)

@[simp]
theorem RecipeSummary.lawful : RecipeSummary.codec.Lawful (height + 4) := lawful_record.codec

/-! ## What happens to recipes -/

@[simp]
theorem CreateRecipe.lawful : CreateRecipe.codec.Lawful (height + 1) :=
  lawful_closed rfl (by decide) (by simp [record]) (fun _ => rfl) (by rintro ⟨⟩; rfl)

@[simp]
theorem CreateRecipeBulk.lawful : CreateRecipeBulk.codec.Lawful (height + 3) :=
  lawful_closed rfl (by decide) (by simp [record]) (fun _ => rfl) (by rintro ⟨⟩; rfl)

@[simp]
theorem CreateRecipeByUrlBulk.lawful : CreateRecipeByUrlBulk.codec.Lawful (height + 5) :=
  lawful_closed rfl (by decide) (by simp [record]) (fun _ => rfl) (by rintro ⟨⟩; rfl)

@[simp]
theorem ParsedIngredient.lawful : ParsedIngredient.codec.Lawful (height + 1) :=
  lawful_closed rfl (by decide) (by simp [record]) (fun _ => rfl) (by rintro ⟨⟩; rfl)

@[simp]
theorem RecipeCommentCreate.lawful : RecipeCommentCreate.codec.Lawful (height + 1) :=
  lawful_closed rfl (by decide) (by simp [record]) (fun _ => rfl) (by rintro ⟨⟩; rfl)

@[simp]
theorem RecipeCommentUpdate.lawful : RecipeCommentUpdate.codec.Lawful (height + 1) :=
  lawful_closed rfl (by decide) (by simp [record]) (fun _ => rfl) (by rintro ⟨⟩; rfl)

@[simp]
theorem RecipeTimelineEventIn.lawful : RecipeTimelineEventIn.codec.Lawful (height + 1) :=
  lawful_closed rfl (by decide) (by simp [record]) (fun _ => rfl) (by rintro ⟨⟩; rfl)

@[simp]
theorem RecipeTimelineEventOut.lawful : RecipeTimelineEventOut.codec.Lawful (height + 1) :=
  lawful_closed rfl (by decide) (by simp [record]) (fun _ => rfl) (by rintro ⟨⟩; rfl)

@[simp]
theorem RecipeTimelineEventUpdate.lawful : RecipeTimelineEventUpdate.codec.Lawful (height + 1) :=
  lawful_closed rfl (by decide) (by simp [record]) (fun _ => rfl) (by rintro ⟨⟩; rfl)

@[simp]
theorem RecipeLastMade.lawful : RecipeLastMade.codec.Lawful (height + 1) :=
  lawful_closed rfl (by decide) (by simp [record]) (fun _ => rfl) (by rintro ⟨⟩; rfl)

@[simp]
theorem RecipeZipTokenResponse.lawful : RecipeZipTokenResponse.codec.Lawful (height + 1) :=
  lawful_closed rfl (by decide) (by simp [record]) (fun _ => rfl) (by rintro ⟨⟩; rfl)

@[simp]
theorem RecipeShareTokenCreate.lawful : RecipeShareTokenCreate.codec.Lawful (height + 1) :=
  lawful_closed rfl (by decide) (by simp [record]) (fun _ => rfl) (by rintro ⟨⟩; rfl)

theorem RecipeShareToken.lawful_record : RecipeShareToken.record.Lawful (height + 4) :=
  .of_closed rfl (by decide) (by simp [record]) (fun _ => rfl) (by rintro ⟨⟩; rfl)

@[simp]
theorem RecipeShareToken.lawful : RecipeShareToken.codec.Lawful (height + 5) := lawful_record.codec

@[simp]
theorem UpdateImageResponse.lawful : UpdateImageResponse.codec.Lawful (height + 1) :=
  lawful_closed rfl (by decide) (by simp [record]) (fun _ => rfl) (by rintro ⟨⟩; rfl)

/-! ## Searches and suggestions -/

@[simp]
theorem RecipeSearchQuery.lawful : RecipeSearchQuery.codec.Lawful (height + 2) :=
  lawful_closed rfl (by decide) (by simp [record]) (fun _ => rfl) (by rintro ⟨⟩; rfl)

@[simp]
theorem RecipeSuggestionQuery.lawful : RecipeSuggestionQuery.codec.Lawful (height + 1) :=
  lawful_closed rfl (by decide) (by simp [record]) (fun _ => rfl) (by rintro ⟨⟩; rfl)

theorem RecipeSuggestionResponseItem.lawful_record :
    RecipeSuggestionResponseItem.record.Lawful (height + 4) :=
  .of_closed rfl (by decide) (by simp [record]) (fun _ => rfl) (by rintro ⟨⟩; rfl)

@[simp]
theorem RecipeSuggestionResponseItem.lawful :
    RecipeSuggestionResponseItem.codec.Lawful (height + 5) := lawful_record.codec

@[simp]
theorem RecipeSuggestionResponse.lawful : RecipeSuggestionResponse.codec.Lawful (height + 7) :=
  lawful_closed rfl (by decide) (by simp [record]) (fun _ => rfl) (by rintro ⟨⟩; rfl)

/-! ## Households -/

@[simp]
theorem ReadHouseholdPreferences.lawful : ReadHouseholdPreferences.codec.Lawful (height + 1) :=
  lawful_closed rfl (by decide) (by simp [record]) (fun _ => rfl) (by rintro ⟨⟩; rfl)

@[simp]
theorem UpdateHouseholdPreferences.lawful : UpdateHouseholdPreferences.codec.Lawful (height + 1) :=
  lawful_closed rfl (by decide) (by simp [record]) (fun _ => rfl) (by rintro ⟨⟩; rfl)

theorem HouseholdSummary.lawful_record : HouseholdSummary.record.Lawful (height + 1) :=
  .of_closed rfl (by decide) (by simp [record]) (fun _ => rfl) (by rintro ⟨⟩; rfl)

@[simp]
theorem HouseholdSummary.lawful : HouseholdSummary.codec.Lawful (height + 2) := lawful_record.codec

theorem HouseholdInDB.lawful_record : HouseholdInDB.record.Lawful (height + 1) :=
  .of_closed rfl (by decide) (by simp [record]) (fun _ => rfl) (by rintro ⟨⟩; rfl)

@[simp]
theorem HouseholdInDB.lawful : HouseholdInDB.codec.Lawful (height + 2) := lawful_record.codec

theorem HouseholdRecipeSummary.lawful_record : HouseholdRecipeSummary.record.Lawful (height + 4) :=
  .of_closed rfl (by decide) (by simp [record]) (fun _ => rfl) (by rintro ⟨⟩; rfl)

@[simp]
theorem HouseholdRecipeSummary.lawful :
    HouseholdRecipeSummary.codec.Lawful (height + 5) := lawful_record.codec

@[simp]
theorem HouseholdStatistics.lawful : HouseholdStatistics.codec.Lawful (height + 1) :=
  lawful_closed rfl (by decide) (by simp [record]) (fun _ => rfl) (by rintro ⟨⟩; rfl)

@[simp]
theorem SetPermissions.lawful : SetPermissions.codec.Lawful (height + 1) :=
  lawful_closed rfl (by decide) (by simp [record]) (fun _ => rfl) (by rintro ⟨⟩; rfl)

@[simp]
theorem CreateInviteToken.lawful : CreateInviteToken.codec.Lawful (height + 1) :=
  lawful_closed rfl (by decide) (by simp [record]) (fun _ => rfl) (by rintro ⟨⟩; rfl)

@[simp]
theorem ReadInviteToken.lawful : ReadInviteToken.codec.Lawful (height + 1) :=
  lawful_closed rfl (by decide) (by simp [record]) (fun _ => rfl) (by rintro ⟨⟩; rfl)

/-! ## Users -/

@[simp]
theorem UserIn.lawful : UserIn.codec.Lawful (height + 1) :=
  lawful_closed rfl (by decide) (by simp [record]) (fun _ => rfl) (by rintro ⟨⟩; rfl)

@[simp]
theorem UserOut.lawful : UserOut.codec.Lawful (height + 1) :=
  lawful_closed rfl (by decide) (by simp [record]) (fun _ => rfl) (by rintro ⟨⟩; rfl)

@[simp]
theorem ForgotPassword.lawful : ForgotPassword.codec.Lawful (height + 1) :=
  lawful_closed rfl (by decide) (by simp [record]) (fun _ => rfl) (by rintro ⟨⟩; rfl)

@[simp]
theorem PasswordResetToken.lawful : PasswordResetToken.codec.Lawful (height + 1) :=
  lawful_closed rfl (by decide) (by simp [record]) (fun _ => rfl) (by rintro ⟨⟩; rfl)

@[simp]
theorem UnlockResults.lawful : UnlockResults.codec.Lawful (height + 1) :=
  lawful_closed rfl (by decide) (by simp [record]) (fun _ => rfl) (by rintro ⟨⟩; rfl)

@[simp]
theorem AuthRequest.lawful : AuthRequest.codec.Lawful (height + 1) :=
  lawful_closed rfl (by decide) (by simp [record]) (fun _ => rfl) (by rintro ⟨⟩; rfl)

@[simp]
theorem AuthToken.lawful : AuthToken.codec.Lawful (height + 1) :=
  lawful_closed rfl (by decide) (by simp [record]) (fun _ => rfl) (by rintro ⟨⟩; rfl)

/-! ## Filters -/

theorem Relationship.name_of_ofName? {s : String} {relation : Relationship}
    (h : ofName? s = some relation) : relation.name = s := by
  have hname := List.find?_some h
  exact eq_of_beq hname

/-- A relation is found by its own name. -/
theorem Relationship.ofName?_name {v : Value} {relation : Relationship}
    (h : ofValue? v = some relation) : ofName? relation.name = some relation := by
  unfold ofValue? at h
  split at h
  · rw [name_of_ofName? h]
    exact h
  · rw [name_of_ofName? h]
    exact h
  · exact absurd h (by simp)

@[simp]
theorem Relationship.lawful : Relationship.codec.Lawful height :=
  lawful_alternatives (fun hvalue _ => ⟨.string _ _, rfl, ofName?_name hvalue⟩)
    fun _ => Value.noConfusion

theorem FilterValue.asStrings?_strings (values : List String) :
    (Value.array (values.map .string)).asStrings? = some values := by
  simp only [Value.asStrings?, Value.asArray?, Option.bind_some]
  induction values with
  | nil => rfl
  | cons s values ih =>
    rw [List.map_cons, List.mapM_cons, ih]
    rfl

/-- Several texts are given by a list, so there is room for one. -/
theorem FilterValue.fits_list {v : Value} {values : List String} {depth : Nat}
    (h : v.asStrings? = some values) (hfits : v.Fits depth) :
    (Value.array (values.map .string)).Fits depth := by
  cases hfits with
  | array =>
    refine .array ?_
    intro item hitem
    obtain ⟨s, _, rfl⟩ := List.mem_map.mp hitem
    exact .string _ s
  | _ => exact absurd h (by simp [Value.asStrings?, Value.asArray?])

@[simp]
theorem FilterValue.lawful : FilterValue.codec.Lawful height := by
  refine lawful_alternatives (fun {v a depth} hvalue hfits => ?_) fun a => ?_
  · unfold ofValue? at hvalue
    split at hvalue
    · obtain rfl := Option.some.inj hvalue
      exact ⟨.string _ _, rfl, rfl⟩
    · obtain ⟨values, hvalues, rfl⟩ := Option.map_eq_some_iff.mp hvalue
      refine ⟨fits_list hvalues hfits, ?_, ?_⟩
      · simp [Value.canonical, Value.canonicalItems_eq_map]
      · simp [ofValue?, asStrings?_strings]
  · cases a <;> exact Value.noConfusion

@[simp]
theorem QueryFilterJSONPart.lawful : QueryFilterJSONPart.codec.Lawful (height + 1) :=
  lawful_open rfl (by decide) (by simp [record]) (fun _ _ => rfl) (fun _ _ => rfl)
    (by rintro ⟨⟩; rfl)

@[simp]
theorem QueryFilterJSON.lawful : QueryFilterJSON.codec.Lawful (height + 3) :=
  lawful_closed rfl (by decide) (by simp [record]) (fun _ => rfl) (by rintro ⟨⟩; rfl)

/-! ## Meal plans -/

@[simp]
theorem CreatePlanEntry.lawful : CreatePlanEntry.codec.Lawful (height + 1) :=
  lawful_closed rfl (by decide) (by simp [record]) (fun _ => rfl) (by rintro ⟨⟩; rfl)

@[simp]
theorem CreateRandomEntry.lawful : CreateRandomEntry.codec.Lawful (height + 1) :=
  lawful_closed rfl (by decide) (by simp [record]) (fun _ => rfl) (by rintro ⟨⟩; rfl)

theorem ReadPlanEntry.lawful_record : ReadPlanEntry.record.Lawful (height + 4) :=
  .of_closed rfl (by decide) (by simp [record]) (fun _ => rfl) (by rintro ⟨⟩; rfl)

@[simp]
theorem ReadPlanEntry.lawful : ReadPlanEntry.codec.Lawful (height + 5) := lawful_record.codec

theorem UpdatePlanEntry.lawful_record : UpdatePlanEntry.record.Lawful height :=
  .of_closed rfl (by decide) (by simp [record]) (fun _ => rfl) (by rintro ⟨⟩; rfl)

@[simp]
theorem UpdatePlanEntry.lawful : UpdatePlanEntry.codec.Lawful (height + 1) := lawful_record.codec

@[simp]
theorem SavePlanEntry.lawful : SavePlanEntry.codec.Lawful (height + 1) :=
  lawful_closed rfl (by decide) (by simp [record]) (fun _ => rfl) (by rintro ⟨⟩; rfl)

theorem PlanRulesCreate.lawful_record : PlanRulesCreate.record.Lawful height :=
  .of_closed rfl (by decide) (by simp [record]) (fun _ => rfl) (by rintro ⟨⟩; rfl)

@[simp]
theorem PlanRulesCreate.lawful : PlanRulesCreate.codec.Lawful (height + 1) := lawful_record.codec

theorem PlanRulesSave.lawful_record : PlanRulesSave.record.Lawful height :=
  .of_closed rfl (by decide) (by simp [record]) (fun _ => rfl) (by rintro ⟨⟩; rfl)

@[simp]
theorem PlanRulesSave.lawful : PlanRulesSave.codec.Lawful (height + 1) := lawful_record.codec

theorem PlanRulesOut.lawful_record : PlanRulesOut.record.Lawful (height + 3) :=
  .of_closed rfl (by decide) (by simp [record]) (fun _ => rfl) (by rintro ⟨⟩; rfl)

@[simp]
theorem PlanRulesOut.lawful : PlanRulesOut.codec.Lawful (height + 4) := lawful_record.codec

/-! ## Shopping lists -/

@[simp]
theorem ListItem.lawful : ListItem.codec.Lawful (height + 1) :=
  lawful_closed rfl (by decide) (by simp [record]) (fun _ => rfl) (by rintro ⟨⟩; rfl)

@[simp]
theorem ShoppingListIn.lawful : ShoppingListIn.codec.Lawful (height + 3) :=
  lawful_closed rfl (by decide) (by simp [record]) (fun _ => rfl) (by rintro ⟨⟩; rfl)

@[simp]
theorem ShoppingListOut.lawful : ShoppingListOut.codec.Lawful (height + 3) :=
  lawful_closed rfl (by decide) (by simp [record]) (fun _ => rfl) (by rintro ⟨⟩; rfl)

/-! ## Pages -/

theorem Page.lawful_record {α : Type} {item : Codec α} (h : item.Lawful height) :
    (Page.record item).Lawful (height + 1) := by
  have hnames : ["page", "per_page", "total", "total_pages", "items", "next", "previous"].Nodup := by
    decide
  exact .of_closed rfl hnames (by simp [record, h]) (fun _ => rfl) (by rintro ⟨⟩; rfl)

@[simp]
theorem Page.lawful {α : Type} {item : Codec α} (h : item.Lawful height) :
    (Page.codec item).Lawful (height + 2) := (Page.lawful_record h).codec

namespace Listed

/-- The pages of a type. -/
def paged (l : Listed) : Listed :=
  ⟨"PaginationData<" ++ l.name ++ ">", Page.codec l.codec, none⟩

/-- No type of the catalogue opens more than nine containers by itself. -/
theorem lawful_of_mem {l : Listed} (h : l ∈ catalogue) : l.codec.Lawful 9 := by
  revert l
  simp [catalogue]

/-! ## Texts -/

/-- What a lawful codec reads from a text, it reads again from both texts that are written for it. -/
theorem ofText_written_of_lawful {α : Type} {codec : Codec α} (hcodec : codec.Lawful nestingLimit)
    {text : String} {v : α} (h : codec.ofText text = .ok v)
    (hdoubles : ∀ d ∈ (codec.write v).doubles, d.ReadsBack) :
    codec.ofText (codec.write v).text = .ok v ∧ codec.ofText (codec.toValue v).text = .ok v := by
  obtain ⟨rest, hread⟩ := ofText_eq_ok h
  have hagain := (hcodec.restores (Nat.le_refl _) hread).ofText_text hdoubles
  exact ⟨hagain false, hagain true⟩

/-- What is read from a text as a type of the catalogue, or as a page of one, is read again from
the text that is written for it, if the doubles in it are read back from theirs. -/
theorem ofText_written {l : Listed} (hl : l ∈ catalogue ++ catalogue.map paged) {text : String}
    {v : l.α} (h : l.codec.ofText text = .ok v)
    (hdoubles : ∀ d ∈ (l.codec.write v).doubles, d.ReadsBack) :
    l.codec.ofText (l.codec.write v).text = .ok v ∧
      l.codec.ofText (l.codec.toValue v).text = .ok v := by
  refine ofText_written_of_lawful ?_ h hdoubles
  rcases List.mem_append.mp hl with hl | hl
  · exact (lawful_of_mem hl).mono (by decide)
  · obtain ⟨item, hitem, rfl⟩ := List.mem_map.mp hl
    exact (Page.lawful (lawful_of_mem hitem)).mono (by decide)

/-- A recipe with its members in another order, an integer for a double, an escaped character and
an unknown member that repeats one of its own is read again from both texts written for it. -/
theorem ofText_written_recipe :
    let text := "\x7b\"rating\": 4, \"x\": \x7b\"b\": [], \"a\": null, \"b\": [2.5]\x7d, " ++
      "\"tags\": null, \"slug\": \"\\u0061\"\x7d"
    ∃ v, Recipe.codec.ofText text = .ok v ∧ (Recipe.codec.write v).doubles.length = 2 ∧
      (∀ d ∈ (Recipe.codec.write v).doubles, d.ReadsBack) ∧
      Recipe.codec.ofText (Recipe.codec.write v).text = .ok v ∧
      Recipe.codec.ofText (Recipe.codec.toValue v).text = .ok v := by
  intro text
  have hread : (Recipe.codec.ofText text).toOption.map (fun v =>
      (Recipe.codec.write v).doubles.map fun d => decide (d.text.head?.any Char.isDigit = true ∧
        scanNumber false d.text = .ok (.double d, []))) = some [true, true] := by
    decide +kernel
  obtain ⟨v, hv, hdoubles⟩ := Option.map_eq_some_iff.mp hread
  have htext := ok_of_toOption hv
  have hlength : (Recipe.codec.write v).doubles.length = 2 := by
    rw [← List.length_map, hdoubles]
    rfl
  have hback : ∀ d ∈ (Recipe.codec.write v).doubles, d.ReadsBack := by
    intro d hd
    have hmem := List.mem_map_of_mem (f := fun d => decide (d.text.head?.any Char.isDigit = true ∧
        scanNumber false d.text = .ok (.double d, []))) hd
    rw [hdoubles] at hmem
    have htrue := by simpa using hmem
    exact Double.readsBack_of_scanNumber htrue.1 htrue.2
  have hlisted : (⟨"Recipe", Recipe.codec, some {}⟩ : Listed) ∈ catalogue ++ catalogue.map paged :=
    List.mem_append_left _ (List.mem_cons_self ..)
  exact ⟨v, htext, hlength, hback, ofText_written hlisted htext hback⟩

end Listed

end RecipeClient
