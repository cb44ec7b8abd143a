import RecipeClient.Data.Filter
import RecipeClient.Data.Household

/-!
# Meal plans

The entries of a meal plan, and the rules by which the server picks recipes for them.
-/

namespace RecipeClient

open Json (Codec Entries Record Value)

/-! ## Entries -/

/-- The meal that a plan entry is for. -/
inductive PlanEntryType where
  /-- The first meal of the day. -/
  | breakfast
  | lunch
  | dinner
  | side
deriving DecidableEq

namespace PlanEntryType

instance : Inhabited PlanEntryType := ⟨.breakfast⟩

def name : PlanEntryType → String
  | .breakfast => "breakfast"
  | .lunch => "lunch"
  | .dinner => "dinner"
  | .side => "side"

def all : List PlanEntryType :=
  [.breakfast, .lunch, .dinner, .side]

def codec : Codec PlanEntryType := .named all name

end PlanEntryType

/-- What is sent to plan a meal. -/
structure CreatePlanEntry where
  date : Date
  entryType : PlanEntryType
  title : String
  text : String
  recipeId : Option String
deriving Inhabited

namespace CreatePlanEntry

def record : Record CreatePlanEntry where
  name := "CreatePlanEntry"
  members :=
    [.required "date" .date (·.date) fun r v => { r with date := v },
     .withDefault "entryType" PlanEntryType.codec .breakfast (·.entryType)
       fun r v => { r with entryType := v },
     .withDefault "title" .string "" (·.title) fun r v => { r with title := v },
     .withDefault "text" .string "" (·.text) fun r v => { r with text := v },
     .optional "recipeId" .string (·.recipeId) fun r v => { r with recipeId := v }]
  remainder := none
  blank := default

def codec : Codec CreatePlanEntry := record.codec

end CreatePlanEntry

/-- What is sent to plan a meal that the server picks. -/
structure CreateRandomEntry where
  date : Date
  entryType : PlanEntryType
deriving Inhabited

namespace CreateRandomEntry

def record : Record CreateRandomEntry where
  name := "CreateRandomEntry"
  members :=
    [.required "date" .date (·.date) fun r v => { r with date := v },
     .withDefault "entryType" PlanEntryType.codec .breakfast (·.entryType)
       fun r v => { r with entryType := v }]
  remainder := none
  blank := default

def codec : Codec CreateRandomEntry := record.codec

end CreateRandomEntry

/-- An entry of a meal plan. -/
structure ReadPlanEntry where
  id : Int64
  date : Date
  entryType : PlanEntryType
  title : String
  text : String
  recipeId : Option String
  groupId : String
  userId : String
  householdId : String
  recipe : Option RecipeSummary
deriving Inhabited

namespace ReadPlanEntry

def record : Record ReadPlanEntry where
  name := "ReadPlanEntry"
  members :=
    [.required "id" .integer (·.id) fun r v => { r with id := v },
     .required "date" .date (·.date) fun r v => { r with date := v },
     .withDefault "entryType" PlanEntryType.codec .breakfast (·.entryType)
       fun r v => { r with entryType := v },
     .withDefault "title" .string "" (·.title) fun r v => { r with title := v },
     .withDefault "text" .string "" (·.text) fun r v => { r with text := v },
     .optional "recipeId" .string (·.recipeId) fun r v => { r with recipeId := v },
     .required "groupId" .string (·.groupId) fun r v => { r with groupId := v },
     .required "userId" .string (·.userId) fun r v => { r with userId := v },
     .required "householdId" .string (·.householdId) fun r v => { r with householdId := v },
     .optional "recipe" RecipeSummary.codec (·.recipe) fun r v => { r with recipe := v }]
  remainder := none
  blank := default

def codec : Codec ReadPlanEntry := record.codec

end ReadPlanEntry

/-- What is sent to change an entry. -/
structure UpdatePlanEntry where
  id : Int64
  date : Date
  entryType : PlanEntryType
  title : String
  text : String
  recipeId : Option String
  groupId : String
  userId : String
deriving Inhabited

namespace UpdatePlanEntry

def record : Record UpdatePlanEntry where
  name := "UpdatePlanEntry"
  members :=
    [.required "id" .integer (·.id) fun r v => { r with id := v },
     .required "date" .date (·.date) fun r v => { r with date := v },
     .withDefault "entryType" PlanEntryType.codec .breakfast (·.entryType)
       fun r v => { r with entryType := v },
     .withDefault "title" .string "" (·.title) fun r v => { r with title := v },
     .withDefault "text" .string "" (·.text) fun r v => { r with text := v },
     .optional "recipeId" .string (·.recipeId) fun r v => { r with recipeId := v },
     .required "groupId" .string (·.groupId) fun r v => { r with groupId := v },
     .required "userId" .string (·.userId) fun r v => { r with userId := v }]
  remainder := none
  blank := default

def codec : Codec UpdatePlanEntry := record.codec

end UpdatePlanEntry

/-- What is sent to leave an entry as it is. -/
def ReadPlanEntry.toUpdate (e : ReadPlanEntry) : UpdatePlanEntry where
  id := e.id
  date := e.date
  entryType := e.entryType
  title := e.title
  text := e.text
  recipeId := e.recipeId
  groupId := e.groupId
  userId := e.userId

/-- An entry as it is stored. -/
structure SavePlanEntry where
  date : Date
  entryType : PlanEntryType
  title : String
  text : String
  recipeId : Option String
  groupId : String
  userId : String
deriving Inhabited

namespace SavePlanEntry

def record : Record SavePlanEntry where
  name := "SavePlanEntry"
  members :=
    [.required "date" .date (·.date) fun r v => { r with date := v },
     .withDefault "entryType" PlanEntryType.codec .breakfast (·.entryType)
       fun r v => { r with entryType := v },
     .withDefault "title" .string "" (·.title) fun r v => { r with title := v },
     .withDefault "text" .string "" (·.text) fun r v => { r with text := v },
     .optional "recipeId" .string (·.recipeId) fun r v => { r with recipeId := v },
     .required "groupId" .string (·.groupId) fun r v => { r with groupId := v },
     .required "userId" .string (·.userId) fun r v => { r with userId := v }]
  remainder := none
  blank := default

def codec : Codec SavePlanEntry := record.codec

end SavePlanEntry

/-! ## Rules -/

/-- The day that a rule is for. -/
inductive PlanRulesDay where
  | monday
  | tuesday
  | wednesday
  | thursday
  | friday
  | saturday
  | sunday
  /-- Every day. -/
  | unset
deriving DecidableEq

namespace PlanRulesDay

instance : Inhabited PlanRulesDay := ⟨.unset⟩

def name : PlanRulesDay → String
  | .monday => "monday"
  | .tuesday => "tuesday"
  | .wednesday => "wednesday"
  | .thursday => "thursday"
  | .friday => "friday"
  | .saturday => "saturday"
  | .sunday => "sunday"
  | .unset => "unset"

def all : List PlanRulesDay :=
  [.monday, .tuesday, .wednesday, .thursday, .friday, .saturday, .sunday, .unset]

def codec : Codec PlanRulesDay := .named all name

end PlanRulesDay

/-- The meal that a rule is for. -/
inductive PlanRulesType where
  /-- The first meal of the day. -/
  | breakfast
  | lunch
  | dinner
  | side
  | unset
deriving DecidableEq

namespace PlanRulesType

instance : Inhabited PlanRulesType := ⟨.unset⟩

def name : PlanRulesType → String
  | .breakfast => "breakfast"
  | .lunch => "lunch"
  | .dinner => "dinner"
  | .side => "side"
  | .unset => "unset"

def all : List PlanRulesType :=
  [.breakfast, .lunch, .dinner, .side, .unset]

def codec : Codec PlanRulesType := .named all name

end PlanRulesType

/-- What is sent to create or change a rule. -/
structure PlanRulesCreate where
  day : PlanRulesDay := .unset
  entryType : PlanRulesType := .unset
  queryFilterString : String := ""
deriving Inhabited

namespace PlanRulesCreate

def record : Record PlanRulesCreate where
  name := "PlanRulesCreate"
  members :=
    [.withDefault "day" PlanRulesDay.codec .unset (·.day) fun r v => { r with day := v },
     .withDefault "entryType" PlanRulesType.codec .unset (·.entryType)
       fun r v => { r with entryType := v },
     .withDefault "queryFilterString" .string "" (·.queryFilterString)
       fun r v => { r with queryFilterString := v }]
  remainder := none
  blank := {}

def codec : Codec PlanRulesCreate := record.codec

end PlanRulesCreate

/-- The rule that picks by a filter. -/
def PlanRulesCreate.ofFilter (day : PlanRulesDay) (entryType : PlanRulesType)
    (filter : QueryFilterJSON) : PlanRulesCreate :=
  { day, entryType, queryFilterString := filter.text }

/-- A rule as it is stored. -/
structure PlanRulesSave where
  day : PlanRulesDay
  entryType : PlanRulesType
  queryFilterString : String
  groupId : String
  householdId : String
deriving Inhabited

namespace PlanRulesSave

def record : Record PlanRulesSave where
  name := "PlanRulesSave"
  members :=
    [.withDefault "day" PlanRulesDay.codec .unset (·.day) fun r v => { r with day := v },
     .withDefault "entryType" PlanRulesType.codec .unset (·.entryType)
       fun r v => { r with entryType := v },
     .withDefault "queryFilterString" .string "" (·.queryFilterString)
       fun r v => { r with queryFilterString := v },
     .required "groupId" .string (·.groupId) fun r v => { r with groupId := v },
     .required "householdId" .string (·.householdId) fun r v => { r with householdId := v }]
  remainder := none
  blank := default

def codec : Codec PlanRulesSave := record.codec

end PlanRulesSave

/-- A rule. Its filter stands there as parts and as a text, which need not agree. -/
structure PlanRulesOut where
  id : String
  day : PlanRulesDay
  entryType : PlanRulesType
  queryFilterString : String
  groupId : String
  householdId : String
  queryFilter : Option QueryFilterJSON
  categories : List RecipeCategory
  tags : List RecipeTag
  households : List HouseholdSummary
deriving Inhabited

namespace PlanRulesOut

def record : Record PlanRulesOut where
  name := "PlanRulesOut"
  members :=
    [.required "id" .string (·.id) fun r v => { r with id := v },
     .withDefault "day" PlanRulesDay.codec .unset (·.day) fun r v => { r with day := v },
     .withDefault "entryType" PlanRulesType.codec .unset (·.entryType)
       fun r v => { r with entryType := v },
     .withDefault "queryFilterString" .string "" (·.queryFilterString)
       fun r v => { r with queryFilterString := v },
     .required "groupId" .string (·.groupId) fun r v => { r with groupId := v },
     .required "householdId" .string (·.householdId) fun r v => { r with householdId := v },
     .optional "queryFilter" QueryFilterJSON.codec (·.queryFilter)
       fun r v => { r with queryFilter := v },
     .list "categories" RecipeCategory.codec (·.categories) fun r v => { r with categories := v },
     .list "tags" RecipeTag.codec (·.tags) fun r v => { r with tags := v },
     .list "households" HouseholdSummary.codec (·.households) fun r v => { r with households := v }]
  remainder := none
  blank := default

def codec : Codec PlanRulesOut := record.codec

end PlanRulesOut

end RecipeClient
