import RecipeClient.Data.IngredientParser
import RecipeClient.Data.MealPlan
import RecipeClient.Data.Page
import RecipeClient.Data.RecipeActivity
import RecipeClient.Data.Search
import RecipeClient.Data.Shopping
import RecipeClient.Data.User

/-!
# The catalogue of types

Every type that the server and the client exchange, by its name, with its codec and the value
that it has when nothing is known, if there is one.
-/

namespace RecipeClient

open Json (Codec Problem Value)

/-- A type of the catalogue. -/
structure Listed where
  /-- The name of the type. -/
  name : String
  /-- The values of the type. -/
  {α : Type}
  /-- How they are read and written. -/
  codec : Codec α
  /-- The value when nothing is known. -/
  start : Option α

namespace Listed

/-- Reads a text as a type and writes what was read. -/
def rewrite (l : Listed) (text : String) : Except Problem Value :=
  (l.codec.ofText text).map l.codec.toValue

/-- The written value when nothing is known. -/
def startValue? (l : Listed) : Option Value := l.start.map l.codec.toValue

end Listed

/-- All types, by name. -/
def catalogue : List Listed :=
  [⟨"Recipe", Recipe.codec, some {}⟩,
   ⟨"RecipeSummary", RecipeSummary.codec, some {}⟩,
   ⟨"CreateRecipe", CreateRecipe.codec, none⟩,
   ⟨"RecipeCategory", RecipeCategory.codec, some {}⟩,
   ⟨"RecipeTag", RecipeTag.codec, some {}⟩,
   ⟨"RecipeTool", RecipeTool.codec, some {}⟩,
   ⟨"RecipeToolCreate", RecipeToolCreate.codec, some {}⟩,
   ⟨"RecipeAsset", RecipeAsset.codec, none⟩,
   ⟨"RecipeComment", RecipeComment.codec, none⟩,
   ⟨"RecipeCommentCreate", RecipeCommentCreate.codec, none⟩,
   ⟨"RecipeCommentUpdate", RecipeCommentUpdate.codec, none⟩,
   ⟨"RecipeTimelineEventIn", RecipeTimelineEventIn.codec, none⟩,
   ⟨"RecipeTimelineEventOut", RecipeTimelineEventOut.codec, none⟩,
   ⟨"RecipeTimelineEventUpdate", RecipeTimelineEventUpdate.codec, some {}⟩,
   ⟨"RecipeZipTokenResponse", RecipeZipTokenResponse.codec, none⟩,
   ⟨"RecipeShareTokenCreate", RecipeShareTokenCreate.codec, some {}⟩,
   ⟨"RecipeShareToken", RecipeShareToken.codec, none⟩,
   ⟨"RecipeLastMade", RecipeLastMade.codec, none⟩,
   ⟨"UpdateImageResponse", UpdateImageResponse.codec, none⟩,
   ⟨"RecipeSuggestionQuery", RecipeSuggestionQuery.codec, some {}⟩,
   ⟨"RecipeSuggestionResponseItem", RecipeSuggestionResponseItem.codec, none⟩,
   ⟨"RecipeSuggestionResponse", RecipeSuggestionResponse.codec, none⟩,
   ⟨"CreateRecipeBulk", CreateRecipeBulk.codec, none⟩,
   ⟨"CreateRecipeByUrlBulk", CreateRecipeByUrlBulk.codec, none⟩,
   ⟨"ParsedIngredient", ParsedIngredient.codec, none⟩,
   ⟨"RecipeSearchQuery", RecipeSearchQuery.codec, some {}⟩,
   ⟨"Parser", Parser.codec, some default⟩,
   ⟨"HouseholdSummary", HouseholdSummary.codec, none⟩,
   ⟨"HouseholdInDB", HouseholdInDB.codec, none⟩,
   ⟨"HouseholdRecipeSummary", HouseholdRecipeSummary.codec, none⟩,
   ⟨"HouseholdStatistics", HouseholdStatistics.codec, some {}⟩,
   ⟨"ReadHouseholdPreferences", ReadHouseholdPreferences.codec, none⟩,
   ⟨"UpdateHouseholdPreferences", UpdateHouseholdPreferences.codec, some {}⟩,
   ⟨"SetPermissions", SetPermissions.codec, some {}⟩,
   ⟨"CreateInviteToken", CreateInviteToken.codec, none⟩,
   ⟨"ReadInviteToken", ReadInviteToken.codec, none⟩,
   ⟨"UserIn", UserIn.codec, some {}⟩,
   ⟨"UserOut", UserOut.codec, some {}⟩,
   ⟨"ForgotPassword", ForgotPassword.codec, none⟩,
   ⟨"PasswordResetToken", PasswordResetToken.codec, none⟩,
   ⟨"UnlockResults", UnlockResults.codec, none⟩,
   ⟨"AuthRequest", AuthRequest.codec, none⟩,
   ⟨"AuthToken", AuthToken.codec, none⟩,
   ⟨"PlanEntryType", PlanEntryType.codec, some default⟩,
   ⟨"PlanRulesDay", PlanRulesDay.codec, some default⟩,
   ⟨"PlanRulesType", PlanRulesType.codec, some default⟩,
   ⟨"CreatePlanEntry", CreatePlanEntry.codec, none⟩,
   ⟨"CreateRandomEntry", CreateRandomEntry.codec, none⟩,
   ⟨"ReadPlanEntry", ReadPlanEntry.codec, none⟩,
   ⟨"UpdatePlanEntry", UpdatePlanEntry.codec, none⟩,
   ⟨"SavePlanEntry", SavePlanEntry.codec, none⟩,
   ⟨"PlanRulesCreate", PlanRulesCreate.codec, some {}⟩,
   ⟨"PlanRulesSave", PlanRulesSave.codec, none⟩,
   ⟨"PlanRulesOut", PlanRulesOut.codec, none⟩,
   ⟨"ListItem", ListItem.codec, some {}⟩,
   ⟨"ShoppingListIn", ShoppingListIn.codec, none⟩,
   ⟨"ShoppingListOut", ShoppingListOut.codec, none⟩,
   ⟨"LogicalOperator", LogicalOperator.codec, none⟩,
   ⟨"RelationalKeyword", RelationalKeyword.codec, none⟩,
   ⟨"RelationalOperator", RelationalOperator.codec, none⟩,
   ⟨"Relationship", Relationship.codec, none⟩,
   ⟨"FilterValue", FilterValue.codec, none⟩,
   ⟨"QueryFilterJSONPart", QueryFilterJSONPart.codec, some {}⟩,
   ⟨"QueryFilterJSON", QueryFilterJSON.codec, some {}⟩,
   ⟨"Value", .any, some .null⟩,
   ⟨"PaginationData<Recipe>", Page.codec Recipe.codec, none⟩,
   ⟨"PaginationData<RecipeTool>", Page.codec RecipeTool.codec, none⟩,
   ⟨"PaginationData<UserOut>", Page.codec UserOut.codec, none⟩,
   ⟨"PaginationData<i64>", Page.codec .integer, none⟩]

/-- The type with a name. -/
def Listed.find? (name : String) : Option Listed := catalogue.find? (·.name == name)

/-- Reads a text as the type with a name and writes what was read. -/
def rewriteAs? (name text : String) : Option (Except Problem Value) :=
  match Listed.find? name with
  | some l => some (l.rewrite text)
  | none => none

/-- The written value of the type with a name when nothing is known. -/
def startOf? (name : String) : Option Value :=
  match Listed.find? name with
  | some l => l.startValue?
  | none => none

end RecipeClient
