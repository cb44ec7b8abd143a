import RecipeClient.Data.Organizer

/-!
# Recipes

A whole recipe, the short form that other records hold, and the assets and comments within a
recipe. A whole recipe keeps the members that it does not model.
-/

namespace RecipeClient

open Json (Codec Entries Record Value)

/-- A file that belongs to a recipe. -/
structure RecipeAsset where
  name : String
  icon : String
  fileName : Option String
deriving Inhabited

namespace RecipeAsset

def record : Record RecipeAsset where
  name := "RecipeAsset"
  members :=
    [.required "name" .string (·.name) fun r v => { r with name := v },
     .required "icon" .string (·.icon) fun r v => { r with icon := v },
     .optional "fileName" .string (·.fileName) fun r v => { r with fileName := v }]
  remainder := none
  blank := default

def codec : Codec RecipeAsset := record.codec

end RecipeAsset

/-- A comment on a recipe. -/
structure RecipeComment where
  id : String
  recipeId : String
  text : String
  userId : Option String
  createdAt : Option String
  user : Option Value
deriving Inhabited

namespace RecipeComment

def record : Record RecipeComment where
  name := "RecipeComment"
  members :=
    [.required "id" .string (·.id) fun r v => { r with id := v },
     .required "recipeId" .string (·.recipeId) fun r v => { r with recipeId := v },
     .required "text" .string (·.text) fun r v => { r with text := v },
     .optional "userId" .string (·.userId) fun r v => { r with userId := v },
     .optional "createdAt" .string (·.createdAt) fun r v => { r with createdAt := v },
     .optional "user" .any (·.user) fun r v => { r with user := v }]
  remainder := none
  blank := default

def codec : Codec RecipeComment := record.codec

end RecipeComment

/-- A recipe. Its slug is the name that the server knows it by. -/
structure Recipe where
  id : Option String := none
  userId : Option String := none
  householdId : Option String := none
  groupId : Option String := none
  name : Option String := none
  slug : String := ""
  image : Option Value := none
  recipeServings : Option Double := none
  recipeYieldQuantity : Option Double := none
  recipeYield : Option String := none
  totalTime : Option String := none
  prepTime : Option String := none
  cookTime : Option String := none
  performTime : Option String := none
  description : Option String := none
  recipeCategory : List RecipeCategory := []
  tags : List RecipeTag := []
  tools : List RecipeTool := []
  rating : Option Double := none
  orgUrl : Option String := none
  dateAdded : Option String := none
  dateUpdated : Option String := none
  createdAt : Option String := none
  updatedAt : Option String := none
  lastMade : Option String := none
  recipeIngredient : List Value := []
  recipeInstructions : List Value := []
  nutrition : Option Value := none
  settings : Option Value := none
  assets : List RecipeAsset := []
  notes : List Value := []
  comments : List RecipeComment := []
  /-- The members that are not modelled. -/
  other : Entries := []
deriving Inhabited

namespace Recipe

def record : Record Recipe where
  name := "Recipe"
  members :=
    [.optional "id" .string (·.id) fun r v => { r with id := v },
     .optional "userId" .string (·.userId) fun r v => { r with userId := v },
     .optional "householdId" .string (·.householdId) fun r v => { r with householdId := v },
     .optional "groupId" .string (·.groupId) fun r v => { r with groupId := v },
     .optional "name" .string (·.name) fun r v => { r with name := v },
     .withDefault "slug" .string "" (·.slug) fun r v => { r with slug := v },
     .optional "image" .any (·.image) fun r v => { r with image := v },
     .optional "recipeServings" .double (·.recipeServings)
       fun r v => { r with recipeServings := v },
     .optional "recipeYieldQuantity" .double (·.recipeYieldQuantity)
       fun r v => { r with recipeYieldQuantity := v },
     .optional "recipeYield" .string (·.recipeYield) fun r v => { r with recipeYield := v },
     .optional "totalTime" .string (·.totalTime) fun r v => { r with totalTime := v },
     .optional "prepTime" .string (·.prepTime) fun r v => { r with prepTime := v },
     .optional "cookTime" .string (·.cookTime) fun r v => { r with cookTime := v },
     .optional "performTime" .string (·.performTime) fun r v => { r with performTime := v },
     .optional "description" .string (·.description) fun r v => { r with description := v },
     .listOrNull "recipeCategory" RecipeCategory.codec (·.recipeCategory)
       fun r v => { r with recipeCategory := v },
     .listOrNull "tags" RecipeTag.codec (·.tags) fun r v => { r with tags := v },
     .listOrNull "tools" RecipeTool.codec (·.tools) fun r v => { r with tools := v },
     .optional "rating" .double (·.rating) fun r v => { r with rating := v },
     .optional "orgURL" .string (·.orgUrl) fun r v => { r with orgUrl := v },
     .optional "dateAdded" .string (·.dateAdded) fun r v => { r with dateAdded := v },
     .optional "dateUpdated" .string (·.dateUpdated) fun r v => { r with dateUpdated := v },
     .optional "createdAt" .string (·.createdAt) fun r v => { r with createdAt := v },
     .optional "updatedAt" .string (·.updatedAt) fun r v => { r with updatedAt := v },
     .optional "lastMade" .string (·.lastMade) fun r v => { r with lastMade := v },
     .listOrNull "recipeIngredient" .any (·.recipeIngredient)
       fun r v => { r with recipeIngredient := v },
     .listOrNull "recipeInstructions" .any (·.recipeInstructions)
       fun r v => { r with recipeInstructions := v },
     .optional "nutrition" .any (·.nutrition) fun r v => { r with nutrition := v },
     .optional "settings" .any (·.settings) fun r v => { r with settings := v },
     .listOrNull "assets" RecipeAsset.codec (·.assets) fun r v => { r with assets := v },
     .listOrNull "notes" .any (·.notes) fun r v => { r with notes := v },
     .listOrNull "comments" RecipeComment.codec (·.comments) fun r v => { r with comments := v }]
  remainder := some ⟨(·.other), fun r v => { r with other := v }⟩
  blank := {}

def codec : Codec Recipe := record.codec

end Recipe

/-- The short form of a recipe. -/
structure RecipeSummary where
  id : Option String := none
  name : Option String := none
  slug : String := ""
  description : Option String := none
  recipeCategory : List RecipeCategory := []
  tags : List RecipeTag := []
  tools : List RecipeTool := []
  rating : Option Double := none
  totalTime : Option String := none
  lastMade : Option String := none
deriving Inhabited

namespace RecipeSummary

def record : Record RecipeSummary where
  name := "RecipeSummary"
  members :=
    [.optional "id" .string (·.id) fun r v => { r with id := v },
     .optional "name" .string (·.name) fun r v => { r with name := v },
     .withDefault "slug" .string "" (·.slug) fun r v => { r with slug := v },
     .optional "description" .string (·.description) fun r v => { r with description := v },
     .listOrNull "recipeCategory" RecipeCategory.codec (·.recipeCategory)
       fun r v => { r with recipeCategory := v },
     .listOrNull "tags" RecipeTag.codec (·.tags) fun r v => { r with tags := v },
     .listOrNull "tools" RecipeTool.codec (·.tools) fun r v => { r with tools := v },
     .optional "rating" .double (·.rating) fun r v => { r with rating := v },
     .optional "totalTime" .string (·.totalTime) fun r v => { r with totalTime := v },
     .optional "lastMade" .string (·.lastMade) fun r v => { r with lastMade := v }]
  remainder := none
  blank := {}

def codec : Codec RecipeSummary := record.codec

end RecipeSummary

end RecipeClient
