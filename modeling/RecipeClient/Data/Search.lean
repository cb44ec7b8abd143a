import RecipeClient.Data.Recipe

/-!
# Searches and suggestions

The criteria of a search for recipes and of a request for suggestions, all of which may be left
unset, and the suggestions themselves.
-/

namespace RecipeClient

open Json (Codec Entries Record Value)

/-- The criteria of a search for recipes. -/
structure RecipeSearchQuery where
  search : Option String := none
  orderDirection : Option String := none
  groupId : Option String := none
  queryFilter : Option String := none
  cookbook : Option String := none
  households : Option (List String) := none
  categories : Option (List String) := none
  requireAllCategories : Option Bool := none
  tags : Option (List String) := none
  requireAllTags : Option Bool := none
  tools : Option (List String) := none
  requireAllTools : Option Bool := none
  foods : Option (List String) := none
  requireAllFoods : Option Bool := none
  page : Option Int64 := none
  perPage : Option Int64 := none
  orderBy : Option String := none
  orderByNullPosition : Option String := none
  searchSeed : Option String := none
deriving Inhabited

namespace RecipeSearchQuery

def record : Record RecipeSearchQuery where
  name := "RecipeSearchQuery"
  members :=
    [.criterion "search" .string (·.search) fun r v => { r with search := v },
     .criterion "orderDirection" .string (·.orderDirection)
       fun r v => { r with orderDirection := v },
     .criterion "groupId" .string (·.groupId) fun r v => { r with groupId := v },
     .criterion "queryFilter" .string (·.queryFilter) fun r v => { r with queryFilter := v },
     .criterion "cookbook" .string (·.cookbook) fun r v => { r with cookbook := v },
     .criterion "households" (.list .string) (·.households) fun r v => { r with households := v },
     .criterion "categories" (.list .string) (·.categories) fun r v => { r with categories := v },
     .criterion "requireAllCategories" .boolean (·.requireAllCategories)
       fun r v => { r with requireAllCategories := v },
     .criterion "tags" (.list .string) (·.tags) fun r v => { r with tags := v },
     .criterion "requireAllTags" .boolean (·.requireAllTags)
       fun r v => { r with requireAllTags := v },
     .criterion "tools" (.list .string) (·.tools) fun r v => { r with tools := v },
     .criterion "requireAllTools" .boolean (·.requireAllTools)
       fun r v => { r with requireAllTools := v },
     .criterion "foods" (.list .string) (·.foods) fun r v => { r with foods := v },
     .criterion "requireAllFoods" .boolean (·.requireAllFoods)
       fun r v => { r with requireAllFoods := v },
     .criterion "page" .integer (·.page) fun r v => { r with page := v },
     .criterion "perPage" .integer (·.perPage) fun r v => { r with perPage := v },
     .criterion "orderBy" .string (·.orderBy) fun r v => { r with orderBy := v },
     .criterion "orderByNullPosition" .string (·.orderByNullPosition)
       fun r v => { r with orderByNullPosition := v },
     .criterion "_searchSeed" .string (·.searchSeed) fun r v => { r with searchSeed := v }]
  remainder := none
  blank := {}

def codec : Codec RecipeSearchQuery := record.codec

end RecipeSearchQuery

/-- The criteria of a request for suggestions. -/
structure RecipeSuggestionQuery where
  orderBy : Option String := none
  orderDirection : Option String := none
  queryFilter : Option String := none
  limit : Option Int64 := none
  maxMissingFoods : Option Int64 := none
  maxMissingTools : Option Int64 := none
  includeFoodsOnHand : Option Bool := none
  includeToolsOnHand : Option Bool := none
deriving Inhabited

namespace RecipeSuggestionQuery

def record : Record RecipeSuggestionQuery where
  name := "RecipeSuggestionQuery"
  members :=
    [.criterion "orderBy" .string (·.orderBy) fun r v => { r with orderBy := v },
     .criterion "orderDirection" .string (·.orderDirection)
       fun r v => { r with orderDirection := v },
     .criterion "queryFilter" .string (·.queryFilter) fun r v => { r with queryFilter := v },
     .criterion "limit" .integer (·.limit) fun r v => { r with limit := v },
     .criterion "maxMissingFoods" .integer (·.maxMissingFoods)
       fun r v => { r with maxMissingFoods := v },
     .criterion "maxMissingTools" .integer (·.maxMissingTools)
       fun r v => { r with maxMissingTools := v },
     .criterion "includeFoodsOnHand" .boolean (·.includeFoodsOnHand)
       fun r v => { r with includeFoodsOnHand := v },
     .criterion "includeToolsOnHand" .boolean (·.includeToolsOnHand)
       fun r v => { r with includeToolsOnHand := v }]
  remainder := none
  blank := {}

def codec : Codec RecipeSuggestionQuery := record.codec

end RecipeSuggestionQuery

/-- A suggested recipe and what is missing for it. -/
structure RecipeSuggestionResponseItem where
  recipe : RecipeSummary
  missingFoods : List Value
  missingTools : List RecipeTool
deriving Inhabited

namespace RecipeSuggestionResponseItem

def record : Record RecipeSuggestionResponseItem where
  name := "RecipeSuggestionResponseItem"
  members :=
    [.required "recipe" RecipeSummary.codec (·.recipe) fun r v => { r with recipe := v },
     .list "missingFoods" .any (·.missingFoods) fun r v => { r with missingFoods := v },
     .list "missingTools" RecipeTool.codec (·.missingTools) fun r v => { r with missingTools := v }]
  remainder := none
  blank := default

def codec : Codec RecipeSuggestionResponseItem := record.codec

end RecipeSuggestionResponseItem

/-- The suggestions for a request. -/
structure RecipeSuggestionResponse where
  items : List RecipeSuggestionResponseItem
deriving Inhabited

namespace RecipeSuggestionResponse

def record : Record RecipeSuggestionResponse where
  name := "RecipeSuggestionResponse"
  members :=
    [.required "items" (RecipeSuggestionResponseItem.codec.list) (·.items)
       fun r v => { r with items := v }]
  remainder := none
  blank := default

def codec : Codec RecipeSuggestionResponse := record.codec

end RecipeSuggestionResponse

end RecipeClient
