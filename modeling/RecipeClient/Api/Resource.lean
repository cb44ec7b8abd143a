import RecipeClient.Api.Path
import RecipeClient.Data.MealPlan
import RecipeClient.Data.RecipeActivity
import RecipeClient.Data.User

/-!
# Resources

What the server keeps lists of. Every resource has a path for the list and one for each item; a
`Collection` is a resource whose items the client may also create, replace and remove.
-/

namespace RecipeClient

open Json (Codec)

/-! ## Collections -/

/-- A list of the server that the client may change. -/
inductive Collection where
  | recipes
  | comments
  /-- The tokens that show a recipe to everybody. -/
  | shares
  | tools
  | mealPlans
  | mealPlanRules
  | users
deriving DecidableEq, Inhabited

namespace Collection

def Item : Collection → Type
  | recipes => Recipe
  | comments => RecipeComment
  | shares => RecipeShareToken
  | tools => RecipeTool
  | mealPlans => ReadPlanEntry
  | mealPlanRules => PlanRulesOut
  | users => UserOut

/-- What is sent to create an item. -/
def Draft : Collection → Type
  | recipes => CreateRecipe
  | comments => RecipeCommentCreate
  | shares => RecipeShareTokenCreate
  | tools => RecipeToolCreate
  | mealPlans => CreatePlanEntry
  | mealPlanRules => PlanRulesCreate
  | users => UserIn

/-- What is sent to replace an item. -/
def Edit : Collection → Type
  | recipes => Recipe
  | comments => RecipeCommentUpdate
  | shares => RecipeShareTokenCreate
  | tools => RecipeTool
  | mealPlans => UpdatePlanEntry
  | mealPlanRules => PlanRulesCreate
  | users => UserOut

/-- Reads and writes an item. -/
def itemCodec : (c : Collection) → Codec c.Item
  | recipes => Recipe.codec
  | comments => RecipeComment.codec
  | shares => RecipeShareToken.codec
  | tools => RecipeTool.codec
  | mealPlans => ReadPlanEntry.codec
  | mealPlanRules => PlanRulesOut.codec
  | users => UserOut.codec

/-- Reads and writes what creates an item. -/
def draftCodec : (c : Collection) → Codec c.Draft
  | recipes => CreateRecipe.codec
  | comments => RecipeCommentCreate.codec
  | shares => RecipeShareTokenCreate.codec
  | tools => RecipeToolCreate.codec
  | mealPlans => CreatePlanEntry.codec
  | mealPlanRules => PlanRulesCreate.codec
  | users => UserIn.codec

/-- Reads and writes what replaces an item. -/
def editCodec : (c : Collection) → Codec c.Edit
  | recipes => Recipe.codec
  | comments => RecipeCommentUpdate.codec
  | shares => RecipeShareTokenCreate.codec
  | tools => RecipeTool.codec
  | mealPlans => UpdatePlanEntry.codec
  | mealPlanRules => PlanRulesCreate.codec
  | users => UserOut.codec

/-- The path of the list. -/
def base : Collection → String
  | recipes => Path.recipes
  | comments => Path.comments
  | shares => Path.shares
  | tools => Path.tools
  | mealPlans => Path.mealPlans
  | mealPlanRules => Path.mealPlanRules
  | users => Path.users

/-- The path of an item. -/
def item : Collection → String → String
  | recipes => Path.recipe
  | comments => Path.comment
  | shares => Path.share
  | tools => Path.tool
  | mealPlans => Path.mealPlan
  | mealPlanRules => Path.mealPlanRule
  | users => Path.user

end Collection

/-! ## Resources -/

/-- A list of the server. -/
inductive Resource where
  /-- A list that the client may change. -/
  | collection (c : Collection)
  | households
  /-- The recipes that a group shows to everybody. -/
  | publicRecipes (group : String)
deriving DecidableEq, Inhabited

namespace Resource

def Item : Resource → Type
  | collection c => c.Item
  | households => HouseholdSummary
  | publicRecipes _ => Recipe

/-- Reads and writes an item. -/
def itemCodec : (r : Resource) → Codec r.Item
  | collection c => c.itemCodec
  | households => HouseholdSummary.codec
  | publicRecipes _ => Recipe.codec

/-- The path of the list. -/
def base : Resource → String
  | collection c => c.base
  | households => Path.households
  | publicRecipes group => Path.publicRecipes group

/-- The path of an item. -/
def item : Resource → String → String
  | collection c => c.item
  | households => Path.household
  | publicRecipes group => Path.publicRecipe group

end Resource

end RecipeClient
