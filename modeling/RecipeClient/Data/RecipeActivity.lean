import RecipeClient.Data.Recipe

/-!
# What happens to recipes

Records that are sent and answered around single recipes: creating and importing them, comments,
timeline events, shared links, images and exports, and parsed ingredients.
-/

namespace RecipeClient

open Json (Codec Entries Record Value)

/-! ## Creation and import -/

/-- What is sent to create a recipe. -/
structure CreateRecipe where
  name : String
deriving Inhabited

namespace CreateRecipe

def record : Record CreateRecipe where
  name := "CreateRecipe"
  members :=
    [.required "name" .string (·.name) fun r v => { r with name := v }]
  remainder := none
  blank := default

def codec : Codec CreateRecipe := record.codec

end CreateRecipe

/-- One recipe of an import from several addresses. -/
structure CreateRecipeBulk where
  url : String
  categories : List RecipeCategory
  tags : List RecipeTag
deriving Inhabited

namespace CreateRecipeBulk

def record : Record CreateRecipeBulk where
  name := "CreateRecipeBulk"
  members :=
    [.required "url" .string (·.url) fun r v => { r with url := v },
     .list "categories" RecipeCategory.codec (·.categories) fun r v => { r with categories := v },
     .list "tags" RecipeTag.codec (·.tags) fun r v => { r with tags := v }]
  remainder := none
  blank := default

def codec : Codec CreateRecipeBulk := record.codec

end CreateRecipeBulk

/-- An import from several addresses. -/
structure CreateRecipeByUrlBulk where
  imports : List CreateRecipeBulk
deriving Inhabited

namespace CreateRecipeByUrlBulk

def record : Record CreateRecipeByUrlBulk where
  name := "CreateRecipeByUrlBulk"
  members :=
    [.required "imports" (CreateRecipeBulk.codec.list) (·.imports)
       fun r v => { r with imports := v }]
  remainder := none
  blank := default

def codec : Codec CreateRecipeByUrlBulk := record.codec

end CreateRecipeByUrlBulk

/-- An ingredient that the server has taken apart. -/
structure ParsedIngredient where
  input : Option String
  confidence : Value
  ingredient : Value
deriving Inhabited

namespace ParsedIngredient

def record : Record ParsedIngredient where
  name := "ParsedIngredient"
  members :=
    [.optional "input" .string (·.input) fun r v => { r with input := v },
     .required "confidence" .any (·.confidence) fun r v => { r with confidence := v },
     .required "ingredient" .any (·.ingredient) fun r v => { r with ingredient := v }]
  remainder := none
  blank := default

def codec : Codec ParsedIngredient := record.codec

end ParsedIngredient

/-! ## Comments -/

/-- What is sent to comment on a recipe. -/
structure RecipeCommentCreate where
  recipeId : String
  text : String
deriving Inhabited

namespace RecipeCommentCreate

def record : Record RecipeCommentCreate where
  name := "RecipeCommentCreate"
  members :=
    [.required "recipeId" .string (·.recipeId) fun r v => { r with recipeId := v },
     .required "text" .string (·.text) fun r v => { r with text := v }]
  remainder := none
  blank := default

def codec : Codec RecipeCommentCreate := record.codec

end RecipeCommentCreate

/-- What is sent to change a comment. -/
structure RecipeCommentUpdate where
  id : String
  text : String
deriving Inhabited

namespace RecipeCommentUpdate

def record : Record RecipeCommentUpdate where
  name := "RecipeCommentUpdate"
  members :=
    [.required "id" .string (·.id) fun r v => { r with id := v },
     .required "text" .string (·.text) fun r v => { r with text := v }]
  remainder := none
  blank := default

def codec : Codec RecipeCommentUpdate := record.codec

end RecipeCommentUpdate

/-! ## Timeline -/

/-- What is sent to put an event on the timeline of a recipe. -/
structure RecipeTimelineEventIn where
  recipeId : String
  subject : String
  eventType : String
  eventMessage : Option String
  image : Option String
  timestamp : Option String
deriving Inhabited

namespace RecipeTimelineEventIn

def record : Record RecipeTimelineEventIn where
  name := "RecipeTimelineEventIn"
  members :=
    [.required "recipeId" .string (·.recipeId) fun r v => { r with recipeId := v },
     .required "subject" .string (·.subject) fun r v => { r with subject := v },
     .required "eventType" .string (·.eventType) fun r v => { r with eventType := v },
     .optional "eventMessage" .string (·.eventMessage) fun r v => { r with eventMessage := v },
     .optional "image" .string (·.image) fun r v => { r with image := v },
     .optional "timestamp" .string (·.timestamp) fun r v => { r with timestamp := v }]
  remainder := none
  blank := default

def codec : Codec RecipeTimelineEventIn := record.codec

end RecipeTimelineEventIn

/-- An event on the timeline of a recipe. -/
structure RecipeTimelineEventOut where
  id : String
  recipeId : String
  subject : String
  eventType : String
  eventMessage : Option String
  image : Option String
  timestamp : Option String
  userId : Option String
deriving Inhabited

namespace RecipeTimelineEventOut

def record : Record RecipeTimelineEventOut where
  name := "RecipeTimelineEventOut"
  members :=
    [.required "id" .string (·.id) fun r v => { r with id := v },
     .required "recipeId" .string (·.recipeId) fun r v => { r with recipeId := v },
     .required "subject" .string (·.subject) fun r v => { r with subject := v },
     .required "eventType" .string (·.eventType) fun r v => { r with eventType := v },
     .optional "eventMessage" .string (·.eventMessage) fun r v => { r with eventMessage := v },
     .optional "image" .string (·.image) fun r v => { r with image := v },
     .optional "timestamp" .string (·.timestamp) fun r v => { r with timestamp := v },
     .optional "userId" .string (·.userId) fun r v => { r with userId := v }]
  remainder := none
  blank := default

def codec : Codec RecipeTimelineEventOut := record.codec

end RecipeTimelineEventOut

/-- What is sent to change a timeline event. -/
structure RecipeTimelineEventUpdate where
  subject : String := ""
  eventMessage : Option String := none
  image : Option String := none
deriving Inhabited

namespace RecipeTimelineEventUpdate

def record : Record RecipeTimelineEventUpdate where
  name := "RecipeTimelineEventUpdate"
  members :=
    [.required "subject" .string (·.subject) fun r v => { r with subject := v },
     .optional "eventMessage" .string (·.eventMessage) fun r v => { r with eventMessage := v },
     .optional "image" .string (·.image) fun r v => { r with image := v }]
  remainder := none
  blank := {}

def codec : Codec RecipeTimelineEventUpdate := record.codec

end RecipeTimelineEventUpdate

/-- When a recipe was last made. -/
structure RecipeLastMade where
  timestamp : String
deriving Inhabited

namespace RecipeLastMade

def record : Record RecipeLastMade where
  name := "RecipeLastMade"
  members :=
    [.required "timestamp" .string (·.timestamp) fun r v => { r with timestamp := v }]
  remainder := none
  blank := default

def codec : Codec RecipeLastMade := record.codec

end RecipeLastMade

/-! ## Links, images and exports -/

/-- A token for one download of a recipe. -/
structure RecipeZipTokenResponse where
  token : String
deriving Inhabited

namespace RecipeZipTokenResponse

def record : Record RecipeZipTokenResponse where
  name := "RecipeZipTokenResponse"
  members :=
    [.required "token" .string (·.token) fun r v => { r with token := v }]
  remainder := none
  blank := default

def codec : Codec RecipeZipTokenResponse := record.codec

end RecipeZipTokenResponse

/-- What is sent to share a recipe by a link. -/
structure RecipeShareTokenCreate where
  recipeId : String := ""
  expiresAt : Option String := none
deriving Inhabited

namespace RecipeShareTokenCreate

def record : Record RecipeShareTokenCreate where
  name := "RecipeShareTokenCreate"
  members :=
    [.required "recipeId" .string (·.recipeId) fun r v => { r with recipeId := v },
     .optionalOmitted "expiresAt" .string (·.expiresAt) fun r v => { r with expiresAt := v }]
  remainder := none
  blank := {}

def codec : Codec RecipeShareTokenCreate := record.codec

end RecipeShareTokenCreate

/-- A link that shows one recipe to everyone; its id is the secret part of the link. -/
structure RecipeShareToken where
  id : String
  recipeId : String
  groupId : Option String
  householdId : Option String
  expiresAt : Option String
  createdAt : Option String
  recipe : Option Recipe
deriving Inhabited

namespace RecipeShareToken

def record : Record RecipeShareToken where
  name := "RecipeShareToken"
  members :=
    [.required "id" .string (·.id) fun r v => { r with id := v },
     .required "recipeId" .string (·.recipeId) fun r v => { r with recipeId := v },
     .optional "groupId" .string (·.groupId) fun r v => { r with groupId := v },
     .optional "householdId" .string (·.householdId) fun r v => { r with householdId := v },
     .optional "expiresAt" .string (·.expiresAt) fun r v => { r with expiresAt := v },
     .optional "createdAt" .string (·.createdAt) fun r v => { r with createdAt := v },
     .optional "recipe" Recipe.codec (·.recipe) fun r v => { r with recipe := v }]
  remainder := none
  blank := default

def codec : Codec RecipeShareToken := record.codec

end RecipeShareToken

/-- The answer to a new image. -/
structure UpdateImageResponse where
  image : String
deriving Inhabited

namespace UpdateImageResponse

def record : Record UpdateImageResponse where
  name := "UpdateImageResponse"
  members :=
    [.required "image" .string (·.image) fun r v => { r with image := v }]
  remainder := none
  blank := default

def codec : Codec UpdateImageResponse := record.codec

end UpdateImageResponse

end RecipeClient
