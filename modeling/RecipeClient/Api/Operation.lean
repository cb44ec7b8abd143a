import RecipeClient.Api.Resource
import RecipeClient.Data.IngredientParser
import RecipeClient.Data.Page
import RecipeClient.Data.Search
import RecipeClient.Exchange.Dialogue
import RecipeClient.Time.Instant

/-!
# Operations

An operation is one thing that the server can be asked to do, with all that it depends on. Each
has a type of answers (`Operation.Answer`), a way to read them (`Operation.codec`), and the one
request that asks for it (`Operation.request`); `Operation.perform` sends the request and reads
the answer. A request cannot be made only where the operation lists something and its additional
parameters are not an object.
-/

namespace RecipeClient

open Json (Codec Value)

/-- Something that the server can be asked to do. -/
inductive Operation : Type where
  /-- Lists a page of a resource; a page length of -1 stands for everything. -/
  | list (r : Resource) (page perPage : Int64) (parameters : Value)
  | read (r : Resource) (id : String)
  | create (c : Collection) (draft : c.Draft)
  | replace (c : Collection) (id : String) (edit : c.Edit)
  | remove (c : Collection) (id : String)
  | searchRecipes (query : RecipeSearchQuery)
  | recipesInCategories (categories : List String)
  | suggestRecipes (query : RecipeSuggestionQuery) (foods tools : Option (List String))
  | addAsset (slug name icon extension : String) (file : Upload)
  | setImage (slug : String) (file : Upload)
  /-- Sets the image of a recipe to the one at an address. -/
  | setImageFrom (slug url : String)
  /-- Tries the import from an address. -/
  | tryImport (url : String) (useLanguageModel : Bool)
  /-- Creates a recipe from the text of a page. -/
  | createFromMarkup (data : String) (includeTags : Bool)
  | createFromAddress (url : String) (includeTags : Bool)
  | createFromAddresses (imports : CreateRecipeByUrlBulk)
  | createFromArchive (archive : Upload)
  /-- Creates a recipe from photographs, translated into a language if one is given. -/
  | createFromImages (images : List Upload) (language : Option String)
  | parseIngredients (parser : Option Parser) (ingredients : List String)
  | parseIngredient (parser : Option Parser) (ingredient : String)
  /-- Asks for a token for one download of a recipe. -/
  | exportToken (slug : String)
  | replaceRecipes (recipes : List Recipe)
  | patchRecipes (recipes : List Recipe)
  /-- Says when a recipe was last made. -/
  | setLastMade (slug : String) (time : Instant)
  | createEvent (event : RecipeTimelineEventIn)
  | replaceEvent (id : String) (event : RecipeTimelineEventUpdate)
  | removeEvent (id : String)
  | listEvents (page perPage : Int64) (parameters : Value)
  | setEventImage (id : String) (file : Upload)
  | recipeComments (slug : String)
  /-- Reads the recipe behind a share token. -/
  | sharedRecipe (token : String)
  | toolBySlug (slug : String)
  | mealsToday
  /-- Lets the server choose a meal. -/
  | randomMeal (entry : CreateRandomEntry)
  /-- Unlocks users that failed to log in too often, all of them if forced. -/
  | unlockUsers (force : Bool)
  /-- Asks for a token that resets a password. -/
  | resetPassword (forgotten : ForgotPassword)
  | searchPublic (group : String) (query : RecipeSearchQuery)
  | suggestPublic (group : String) (query : RecipeSuggestionQuery)
      (foods tools : Option (List String))
  /-- Reads the user's household. -/
  | ownHousehold
  /-- Reads a recipe as the user's household has it. -/
  | ownHouseholdRecipe (slug : String)
  /-- Reads the preferences of the household. -/
  | preferences
  | setPreferences (preferences : UpdateHouseholdPreferences)
  | invite (invitation : CreateInviteToken)
  /-- Says what a member of the household may do. -/
  | setPermissions (permissions : SetPermissions)
  | listMembers (page perPage : Int64) (parameters : Value)
  /-- Reads what the household has, in numbers. -/
  | statistics

namespace Operation

/-! ## Answers -/

def Answer : Operation → Type
  | list r .. => Page r.Item
  | read r .. => r.Item
  | create c .. => c.Item
  | replace c .. => c.Item
  | remove c .. => c.Item
  | searchRecipes .. => Page Recipe
  | recipesInCategories .. => List Recipe
  | suggestRecipes .. => RecipeSuggestionResponse
  | addAsset .. => RecipeAsset
  | setImage .. => UpdateImageResponse
  | setImageFrom .. => UpdateImageResponse
  | tryImport .. => Option Recipe
  | createFromMarkup .. => String
  | createFromAddress .. => String
  | createFromAddresses .. => String
  | createFromArchive .. => String
  | createFromImages .. => String
  | parseIngredients .. => List ParsedIngredient
  | parseIngredient .. => ParsedIngredient
  | exportToken .. => RecipeZipTokenResponse
  | replaceRecipes .. => List Recipe
  | patchRecipes .. => List Recipe
  | setLastMade .. => Recipe
  | createEvent .. => RecipeTimelineEventOut
  | replaceEvent .. => RecipeTimelineEventOut
  | removeEvent .. => RecipeTimelineEventOut
  | listEvents .. => Page RecipeTimelineEventOut
  | setEventImage .. => UpdateImageResponse
  | recipeComments .. => List RecipeComment
  | sharedRecipe .. => Recipe
  | toolBySlug .. => RecipeTool
  | mealsToday => List ReadPlanEntry
  | randomMeal .. => ReadPlanEntry
  | unlockUsers .. => UnlockResults
  | resetPassword .. => PasswordResetToken
  | searchPublic .. => Page Recipe
  | suggestPublic .. => RecipeSuggestionResponse
  | ownHousehold => HouseholdInDB
  | ownHouseholdRecipe .. => HouseholdRecipeSummary
  | preferences => ReadHouseholdPreferences
  | setPreferences .. => ReadHouseholdPreferences
  | invite .. => ReadInviteToken
  | setPermissions .. => UserOut
  | listMembers .. => Page UserOut
  | statistics => HouseholdStatistics

def codec : (o : Operation) → Codec o.Answer
  | list r .. => Page.codec r.itemCodec
  | read r .. => r.itemCodec
  | create c .. => c.itemCodec
  | replace c .. => c.itemCodec
  | remove c .. => c.itemCodec
  | searchRecipes .. => Page.codec Recipe.codec
  | recipesInCategories .. => Recipe.codec.list
  | suggestRecipes .. => RecipeSuggestionResponse.codec
  | addAsset .. => RecipeAsset.codec
  | setImage .. => UpdateImageResponse.codec
  | setImageFrom .. => UpdateImageResponse.codec
  | tryImport .. => Recipe.codec.optional
  | createFromMarkup .. => .string
  | createFromAddress .. => .string
  | createFromAddresses .. => .string
  | createFromArchive .. => .string
  | createFromImages .. => .string
  | parseIngredients .. => ParsedIngredient.codec.list
  | parseIngredient .. => ParsedIngredient.codec
  | exportToken .. => RecipeZipTokenResponse.codec
  | replaceRecipes .. => Recipe.codec.list
  | patchRecipes .. => Recipe.codec.list
  | setLastMade .. => Recipe.codec
  | createEvent .. => RecipeTimelineEventOut.codec
  | replaceEvent .. => RecipeTimelineEventOut.codec
  | removeEvent .. => RecipeTimelineEventOut.codec
  | listEvents .. => Page.codec RecipeTimelineEventOut.codec
  | setEventImage .. => UpdateImageResponse.codec
  | recipeComments .. => RecipeComment.codec.list
  | sharedRecipe .. => Recipe.codec
  | toolBySlug .. => RecipeTool.codec
  | mealsToday => ReadPlanEntry.codec.list
  | randomMeal .. => ReadPlanEntry.codec
  | unlockUsers .. => UnlockResults.codec
  | resetPassword .. => PasswordResetToken.codec
  | searchPublic .. => Page.codec Recipe.codec
  | suggestPublic .. => RecipeSuggestionResponse.codec
  | ownHousehold => HouseholdInDB.codec
  | ownHouseholdRecipe .. => HouseholdRecipeSummary.codec
  | preferences => ReadHouseholdPreferences.codec
  | setPreferences .. => ReadHouseholdPreferences.codec
  | invite .. => ReadInviteToken.codec
  | setPermissions .. => UserOut.codec
  | listMembers .. => Page.codec UserOut.codec
  | statistics => HouseholdStatistics.codec

/-! ## Requests -/

/-- The request for a page of a list; additional parameters win over page and page length. -/
def pageRequest (path : String) (page perPage : Int64) (parameters : Value) :
    Except BadParameters Request := do
  let paging := .object [("page", Codec.integer.toValue page),
    ("perPage", Codec.integer.toValue perPage)]
  Request.selecting path (← Query.overlay paging parameters)

/-- The request for suggestions: foods and tools are laid over the query. -/
def suggestionRequest (path : String) (query : RecipeSuggestionQuery)
    (foods tools : Option (List String)) : Except BadParameters Request := do
  let texts := Codec.string.list.optional
  let stock := .object [("foods", texts.toValue foods), ("tools", texts.toValue tools)]
  Request.selecting path (← Query.overlay (RecipeSuggestionQuery.codec.toValue query) stock)

/-- A form with an image and its extension. -/
def imageForm (file : Upload) : Form :=
  (Form.empty.file "image" file).text "extension" file.extension

/-- How long the server may take to read photographs, in milliseconds. -/
def imagesTimeout : Nat := 120000

/-- The path for photographs; an empty language counts as none. -/
def imagesPath : Option String → String
  | none => Path.creationFromImages
  | some language =>
    if language.isEmpty then Path.creationFromImages
    else Query.append Path.creationFromImages [("translateLanguage", language)]

/-- The request that asks for an operation. -/
def request : Operation → Except BadParameters Request
  | list r page perPage parameters => pageRequest r.base page perPage parameters
  | read r id => .ok (.get (r.item id))
  | create c draft => .ok (.carrying .post c.base c.draftCodec draft)
  | replace c id edit => .ok (.carrying .put (c.item id) c.editCodec edit)
  | remove c id => .ok (.delete (c.item id))
  | searchRecipes query => Request.selecting Path.recipes (RecipeSearchQuery.codec.toValue query)
  | recipesInCategories categories =>
    Request.selecting Path.categories
      (.object [("categories", Codec.string.list.toValue categories)])
  | suggestRecipes query foods tools => suggestionRequest Path.suggestions query foods tools
  | addAsset slug name icon extension file =>
    .ok (.form .post (Path.recipeAssets slug)
      ((((Form.empty.file "file" file).text "name" name).text "extension" extension).text
        "icon" icon) none)
  | setImage slug file => .ok (.form .put (Path.recipeImage slug) (imageForm file) none)
  | setImageFrom slug url =>
    .ok (.json .post (Path.recipeImage slug) (.object [("url", .string url)]))
  | tryImport url useLanguageModel =>
    .ok (.json .post Path.trialImport
      (.object [("url", .string url), ("useOpenAI", .boolean useLanguageModel)]))
  | createFromMarkup data includeTags =>
    .ok (.json .post Path.creationFromMarkup
      (.object [("data", .string data), ("includeTags", .boolean includeTags)]))
  | createFromAddress url includeTags =>
    .ok (.json .post Path.creationFromAddress
      (.object [("includeTags", .boolean includeTags), ("url", .string url)]))
  | createFromAddresses imports =>
    .ok (.carrying .post Path.creationFromAddresses CreateRecipeByUrlBulk.codec imports)
  | createFromArchive archive =>
    .ok (.form .post Path.creationFromArchive (Form.empty.file "archive" archive) none)
  | createFromImages images language =>
    .ok (.form .post (imagesPath language) (Form.empty.files "images" images)
      (some imagesTimeout))
  | parseIngredients parser ingredients =>
    .ok (.json .post Path.ingredientsParser
      (.object [("ingredients", Codec.string.list.toValue ingredients),
        ("parser", Parser.codec.toValue (parser.getD default))]))
  | parseIngredient parser ingredient =>
    .ok (.json .post Path.ingredientParser
      (.object [("ingredient", .string ingredient),
        ("parser", Parser.codec.toValue (parser.getD default))]))
  | exportToken slug => .ok (.json .post (Path.exports slug) (.object []))
  | replaceRecipes recipes => .ok (.carrying .put Path.recipes Recipe.codec.list recipes)
  | patchRecipes recipes => .ok (.carrying .patch Path.recipes Recipe.codec.list recipes)
  | setLastMade slug time =>
    .ok (.carrying .patch (Path.lastMade slug) RecipeLastMade.codec ⟨time.text⟩)
  | createEvent event =>
    .ok (.carrying .post Path.timelineEvents RecipeTimelineEventIn.codec event)
  | replaceEvent id event =>
    .ok (.carrying .put (Path.timelineEvent id) RecipeTimelineEventUpdate.codec event)
  | removeEvent id => .ok (.delete (Path.timelineEvent id))
  | listEvents page perPage parameters =>
    pageRequest Path.timelineEvents page perPage parameters
  | setEventImage id file => .ok (.form .put (Path.timelineEventImage id) (imageForm file) none)
  | recipeComments slug => .ok (.get (Path.recipeComments slug))
  | sharedRecipe token => .ok (.get (Path.sharedRecipe token))
  | toolBySlug slug => .ok (.get (Path.toolBySlug slug))
  | mealsToday => .ok (.get Path.mealsToday)
  | randomMeal entry => .ok (.carrying .post Path.randomMeal CreateRandomEntry.codec entry)
  | unlockUsers force => .ok (.json .post (Path.unlocking force) (.object []))
  | resetPassword forgotten =>
    .ok (.carrying .post Path.passwordReset ForgotPassword.codec forgotten)
  | searchPublic group query =>
    Request.selecting (Path.publicRecipes group) (RecipeSearchQuery.codec.toValue query)
  | suggestPublic group query foods tools =>
    suggestionRequest (Path.publicSuggestions group) query foods tools
  | ownHousehold => .ok (.get Path.ownHousehold)
  | ownHouseholdRecipe slug => .ok (.get (Path.ownHouseholdRecipe slug))
  | preferences => .ok (.get Path.preferences)
  | setPreferences wanted =>
    .ok (.carrying .put Path.preferences UpdateHouseholdPreferences.codec wanted)
  | invite invitation => .ok (.carrying .post Path.invitations CreateInviteToken.codec invitation)
  | setPermissions permissions =>
    .ok (.carrying .put Path.permissions SetPermissions.codec permissions)
  | listMembers page perPage parameters => pageRequest Path.members page perPage parameters
  | statistics => .ok (.get Path.statistics)

/-! ## Carrying out -/

/-- Sends the request of an operation and reads the answer. -/
def perform (o : Operation) : Dialogue (Except Failure o.Answer) :=
  Dialogue.attempt o.codec o.request

end Operation

/-! ## Export -/

/-- The path that downloads a recipe with a token. -/
def exportPath (slug token : String) : String := Path.exportedArchive slug ++ "?token=" ++ token

/-- Asks for a token for a recipe and ends with the path that downloads the recipe. -/
def exportLink (slug : String) : Dialogue (Except Failure String) := do
  let answer ← (Operation.exportToken slug).perform
  return answer.map fun (token : RecipeZipTokenResponse) => exportPath slug token.token

end RecipeClient
