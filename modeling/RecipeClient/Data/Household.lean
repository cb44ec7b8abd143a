import RecipeClient.Data.Recipe

/-!
# Households

The households that share recipes and meal plans, with their preferences, permissions and
invitations.
-/

namespace RecipeClient

open Json (Codec Entries Record Value)

/-- The preferences of a household. -/
structure ReadHouseholdPreferences where
  id : String
  privateHousehold : Bool
  lockRecipeEditsFromOtherHouseholds : Bool
  firstDayOfWeek : Int64
  recipePublic : Bool
  recipeShowNutrition : Bool
  recipeShowAssets : Bool
  recipeLandscapeView : Bool
  recipeDisableComments : Bool
deriving Inhabited

namespace ReadHouseholdPreferences

def record : Record ReadHouseholdPreferences where
  name := "ReadHouseholdPreferences"
  members :=
    [.required "id" .string (·.id) fun r v => { r with id := v },
     .withDefault "privateHousehold" .boolean false (·.privateHousehold)
       fun r v => { r with privateHousehold := v },
     .withDefault "lockRecipeEditsFromOtherHouseholds" .boolean false
       (·.lockRecipeEditsFromOtherHouseholds)
       fun r v => { r with lockRecipeEditsFromOtherHouseholds := v },
     .withDefault "firstDayOfWeek" .integer 0 (·.firstDayOfWeek)
       fun r v => { r with firstDayOfWeek := v },
     .withDefault "recipePublic" .boolean false (·.recipePublic)
       fun r v => { r with recipePublic := v },
     .withDefault "recipeShowNutrition" .boolean false (·.recipeShowNutrition)
       fun r v => { r with recipeShowNutrition := v },
     .withDefault "recipeShowAssets" .boolean false (·.recipeShowAssets)
       fun r v => { r with recipeShowAssets := v },
     .withDefault "recipeLandscapeView" .boolean false (·.recipeLandscapeView)
       fun r v => { r with recipeLandscapeView := v },
     .withDefault "recipeDisableComments" .boolean false (·.recipeDisableComments)
       fun r v => { r with recipeDisableComments := v }]
  remainder := none
  blank := default

def codec : Codec ReadHouseholdPreferences := record.codec

end ReadHouseholdPreferences

/-- What is sent to change the preferences of a household: all of them. -/
structure UpdateHouseholdPreferences where
  privateHousehold : Bool := false
  lockRecipeEditsFromOtherHouseholds : Bool := false
  firstDayOfWeek : Int64 := 0
  recipePublic : Bool := false
  recipeShowNutrition : Bool := false
  recipeShowAssets : Bool := false
  recipeLandscapeView : Bool := false
  recipeDisableComments : Bool := false
deriving Inhabited

namespace UpdateHouseholdPreferences

def record : Record UpdateHouseholdPreferences where
  name := "UpdateHouseholdPreferences"
  members :=
    [.required "privateHousehold" .boolean (·.privateHousehold)
       fun r v => { r with privateHousehold := v },
     .required "lockRecipeEditsFromOtherHouseholds" .boolean (·.lockRecipeEditsFromOtherHouseholds)
       fun r v => { r with lockRecipeEditsFromOtherHouseholds := v },
     .required "firstDayOfWeek" .integer (·.firstDayOfWeek)
       fun r v => { r with firstDayOfWeek := v },
     .required "recipePublic" .boolean (·.recipePublic) fun r v => { r with recipePublic := v },
     .required "recipeShowNutrition" .boolean (·.recipeShowNutrition)
       fun r v => { r with recipeShowNutrition := v },
     .required "recipeShowAssets" .boolean (·.recipeShowAssets)
       fun r v => { r with recipeShowAssets := v },
     .required "recipeLandscapeView" .boolean (·.recipeLandscapeView)
       fun r v => { r with recipeLandscapeView := v },
     .required "recipeDisableComments" .boolean (·.recipeDisableComments)
       fun r v => { r with recipeDisableComments := v }]
  remainder := none
  blank := {}

def codec : Codec UpdateHouseholdPreferences := record.codec

end UpdateHouseholdPreferences

/-- A household. -/
structure HouseholdSummary where
  id : String
  name : String
  slug : String
  groupId : String
  preferences : Option ReadHouseholdPreferences
deriving Inhabited

namespace HouseholdSummary

def record : Record HouseholdSummary where
  name := "HouseholdSummary"
  members :=
    [.required "id" .string (·.id) fun r v => { r with id := v },
     .required "name" .string (·.name) fun r v => { r with name := v },
     .required "slug" .string (·.slug) fun r v => { r with slug := v },
     .required "groupId" .string (·.groupId) fun r v => { r with groupId := v },
     .optional "preferences" ReadHouseholdPreferences.codec (·.preferences)
       fun r v => { r with preferences := v }]
  remainder := none
  blank := default

def codec : Codec HouseholdSummary := record.codec

end HouseholdSummary

/-- The household of the current user. -/
structure HouseholdInDB where
  id : String
  name : String
  slug : String
  groupId : String
  group : Option String
  users : List Value
  webhooks : List Value
  preferences : Option ReadHouseholdPreferences
deriving Inhabited

namespace HouseholdInDB

def record : Record HouseholdInDB where
  name := "HouseholdInDB"
  members :=
    [.required "id" .string (·.id) fun r v => { r with id := v },
     .required "name" .string (·.name) fun r v => { r with name := v },
     .required "slug" .string (·.slug) fun r v => { r with slug := v },
     .required "groupId" .string (·.groupId) fun r v => { r with groupId := v },
     .optional "group" .string (·.group) fun r v => { r with group := v },
     .list "users" .any (·.users) fun r v => { r with users := v },
     .list "webhooks" .any (·.webhooks) fun r v => { r with webhooks := v },
     .optional "preferences" ReadHouseholdPreferences.codec (·.preferences)
       fun r v => { r with preferences := v }]
  remainder := none
  blank := default

def codec : Codec HouseholdInDB := record.codec

end HouseholdInDB

/-- A recipe as a household knows it. -/
structure HouseholdRecipeSummary where
  recipeId : String
  lastMade : Option String
  recipe : Option RecipeSummary
deriving Inhabited

namespace HouseholdRecipeSummary

def record : Record HouseholdRecipeSummary where
  name := "HouseholdRecipeSummary"
  members :=
    [.required "recipeId" .string (·.recipeId) fun r v => { r with recipeId := v },
     .optional "lastMade" .string (·.lastMade) fun r v => { r with lastMade := v },
     .optional "recipe" RecipeSummary.codec (·.recipe) fun r v => { r with recipe := v }]
  remainder := none
  blank := default

def codec : Codec HouseholdRecipeSummary := record.codec

end HouseholdRecipeSummary

/-- How much a household holds. -/
structure HouseholdStatistics where
  totalRecipes : Int64 := 0
  totalUsers : Int64 := 0
  totalCategories : Int64 := 0
  totalTags : Int64 := 0
  totalTools : Int64 := 0
deriving Inhabited

namespace HouseholdStatistics

def record : Record HouseholdStatistics where
  name := "HouseholdStatistics"
  members :=
    [.required "totalRecipes" .integer (·.totalRecipes) fun r v => { r with totalRecipes := v },
     .required "totalUsers" .integer (·.totalUsers) fun r v => { r with totalUsers := v },
     .required "totalCategories" .integer (·.totalCategories)
       fun r v => { r with totalCategories := v },
     .required "totalTags" .integer (·.totalTags) fun r v => { r with totalTags := v },
     .required "totalTools" .integer (·.totalTools) fun r v => { r with totalTools := v }]
  remainder := none
  blank := {}

def codec : Codec HouseholdStatistics := record.codec

end HouseholdStatistics

/-- What is sent to change what a member of a household may do. -/
structure SetPermissions where
  userId : String := ""
  canManageHousehold : Bool := false
  canManage : Bool := false
  canInvite : Bool := false
  canOrganize : Bool := false
deriving Inhabited

namespace SetPermissions

def record : Record SetPermissions where
  name := "SetPermissions"
  members :=
    [.required "userId" .string (·.userId) fun r v => { r with userId := v },
     .required "canManageHousehold" .boolean (·.canManageHousehold)
       fun r v => { r with canManageHousehold := v },
     .required "canManage" .boolean (·.canManage) fun r v => { r with canManage := v },
     .required "canInvite" .boolean (·.canInvite) fun r v => { r with canInvite := v },
     .required "canOrganize" .boolean (·.canOrganize) fun r v => { r with canOrganize := v }]
  remainder := none
  blank := {}

def codec : Codec SetPermissions := record.codec

end SetPermissions

/-- What is sent to invite to a household. -/
structure CreateInviteToken where
  uses : Int64
deriving Inhabited

namespace CreateInviteToken

def record : Record CreateInviteToken where
  name := "CreateInviteToken"
  members :=
    [.required "uses" .integer (·.uses) fun r v => { r with uses := v }]
  remainder := none
  blank := default

def codec : Codec CreateInviteToken := record.codec

end CreateInviteToken

/-- An invitation to a household. -/
structure ReadInviteToken where
  token : String
  usesLeft : Int64
  groupId : String
  householdId : String
deriving Inhabited

namespace ReadInviteToken

def record : Record ReadInviteToken where
  name := "ReadInviteToken"
  members :=
    [.required "token" .string (·.token) fun r v => { r with token := v },
     .required "usesLeft" .integer (·.usesLeft) fun r v => { r with usesLeft := v },
     .required "groupId" .string (·.groupId) fun r v => { r with groupId := v },
     .required "householdId" .string (·.householdId) fun r v => { r with householdId := v }]
  remainder := none
  blank := default

def codec : Codec ReadInviteToken := record.codec

end ReadInviteToken

end RecipeClient
