/-!
# Paths

The paths under which the server offers its operations. A path leads from the root of the API
through segments, and identifiers stand in it as they are.
-/

namespace RecipeClient.Path

def root : String := "/api"

/-- The path that leads from the root through segments. -/
def through (segments : List String) : String :=
  segments.foldl (fun path segment => path ++ "/" ++ segment) root

/-! ## Recipes -/

def recipes : String := through ["recipes"]

def recipe (slug : String) : String := through ["recipes", slug]

def categories : String := through ["recipes", "category"]

def suggestions : String := through ["recipes", "suggestions"]

def trialImport : String := through ["recipes", "test-scrape-url"]

def creation : String := through ["recipes", "create"]

def creationFromAddress : String := through ["recipes", "create", "url"]

def creationFromAddresses : String := through ["recipes", "create", "url", "bulk"]

def creationFromArchive : String := through ["recipes", "create", "zip"]

def creationFromImages : String := through ["recipes", "create", "image"]

/-- The creation of a recipe from the text of a page. -/
def creationFromMarkup : String := through ["recipes", "create", "html-or-json"]

/-- The link that exports a recipe. -/
def exports (slug : String) : String := through ["recipes", slug, "exports"]

/-- The archive of an exported recipe. -/
def exportedArchive (slug : String) : String := through ["recipes", slug, "exports", "zip"]

def recipeImage (slug : String) : String := through ["recipes", slug, "image"]

/-- The files of a recipe. -/
def recipeAssets (slug : String) : String := through ["recipes", slug, "assets"]

def lastMade (slug : String) : String := through ["recipes", slug, "last-made"]

def recipeComments (slug : String) : String := through ["recipes", slug, "comments"]

def recipeComment (slug id : String) : String := through ["recipes", slug, "comments", id]

def sharedRecipe (token : String) : String := through ["recipes", "shared", token]

def timelineEvents : String := through ["recipes", "timeline", "events"]

def timelineEvent (id : String) : String := through ["recipes", "timeline", "events", id]

def timelineEventImage (id : String) : String :=
  through ["recipes", "timeline", "events", id, "image"]

def ingredientParser : String := through ["parser", "ingredient"]

def ingredientsParser : String := through ["parser", "ingredients"]

def comments : String := through ["comments"]

def comment (id : String) : String := through ["comments", id]

def shares : String := through ["shared", "recipes"]

def share (id : String) : String := through ["shared", "recipes", id]

/-! ## Public recipes -/

/-- What a group shows to everybody. -/
def publicGroup (group : String) : String := through ["explore", "groups", group]

def publicRecipes (group : String) : String := through ["explore", "groups", group, "recipes"]

def publicRecipe (group slug : String) : String :=
  through ["explore", "groups", group, "recipes", slug]

/-- Suggested public recipes of a group. -/
def publicSuggestions (group : String) : String :=
  through ["explore", "groups", group, "recipes", "suggestions"]

/-! ## Households -/

def households : String := through ["groups", "households"]

def household (id : String) : String := through ["groups", "households", id]

/-- The user's household. -/
def ownHousehold : String := through ["households", "self"]

/-- A recipe as the user's household has it. -/
def ownHouseholdRecipe (slug : String) : String := through ["households", "self", "recipes", slug]

def members : String := through ["households", "members"]

/-- What members of the household may do. -/
def permissions : String := through ["households", "permissions"]

def preferences : String := through ["households", "preferences"]

/-- What the household has, in numbers. -/
def statistics : String := through ["households", "statistics"]

def invitations : String := through ["households", "invitations"]

/-! ## Meal plans -/

def mealPlans : String := through ["households", "mealplans"]

def mealPlan (id : String) : String := through ["households", "mealplans", id]

def mealsToday : String := through ["households", "mealplans", "today"]

/-- The choice of a meal by the server. -/
def randomMeal : String := through ["households", "mealplans", "random"]

def mealPlanRules : String := through ["households", "mealplans", "rules"]

def mealPlanRule (id : String) : String := through ["households", "mealplans", "rules", id]

/-! ## Tools -/

def tools : String := through ["organizers", "tools"]

def tool (id : String) : String := through ["organizers", "tools", id]

def toolBySlug (slug : String) : String := through ["organizers", "tools", "slug", slug]

/-! ## Users -/

def users : String := through ["admin", "users"]

def user (id : String) : String := through ["admin", "users", id]

def unlocking (force : Bool) : String :=
  through ["admin", "users", "unlock"] ++ "?force=" ++ if force then "true" else "false"

def passwordReset : String := through ["admin", "users", "password-reset-token"]

/-- The exchange of a name and a password for a token. -/
def login : String := through ["auth", "token"]

end RecipeClient.Path
