import RecipeClient.Json.Record

/-!
# Users

User accounts as administrators see them, and what logging in sends and answers.
-/

namespace RecipeClient

open Json (Codec Entries Record Value)

/-- What is sent to create a user. -/
structure UserIn where
  username : String := ""
  fullName : String := ""
  email : String := ""
  password : String := ""
  group : Option String := none
  household : Option String := none
  admin : Bool := false
  canInvite : Bool := false
  canManage : Bool := false
  canManageHousehold : Bool := false
  canOrganize : Bool := false
deriving Inhabited

namespace UserIn

def record : Record UserIn where
  name := "UserIn"
  members :=
    [.required "username" .string (·.username) fun r v => { r with username := v },
     .required "fullName" .string (·.fullName) fun r v => { r with fullName := v },
     .required "email" .string (·.email) fun r v => { r with email := v },
     .required "password" .string (·.password) fun r v => { r with password := v },
     .optionalOmitted "group" .string (·.group) fun r v => { r with group := v },
     .optionalOmitted "household" .string (·.household) fun r v => { r with household := v },
     .withDefault "admin" .boolean false (·.admin) fun r v => { r with admin := v },
     .withDefault "canInvite" .boolean false (·.canInvite) fun r v => { r with canInvite := v },
     .withDefault "canManage" .boolean false (·.canManage) fun r v => { r with canManage := v },
     .withDefault "canManageHousehold" .boolean false (·.canManageHousehold)
       fun r v => { r with canManageHousehold := v },
     .withDefault "canOrganize" .boolean false (·.canOrganize)
       fun r v => { r with canOrganize := v }]
  remainder := none
  blank := {}

def codec : Codec UserIn := record.codec

end UserIn

/-- A user. -/
structure UserOut where
  id : String := ""
  username : Option String := none
  fullName : Option String := none
  email : String := ""
  authMethod : Option String := none
  admin : Bool := false
  group : Option String := none
  household : Option String := none
  groupId : Option String := none
  groupSlug : Option String := none
  householdId : Option String := none
  householdSlug : Option String := none
  canInvite : Bool := false
  canManage : Bool := false
  canManageHousehold : Bool := false
  canOrganize : Bool := false
deriving Inhabited

namespace UserOut

def record : Record UserOut where
  name := "UserOut"
  members :=
    [.required "id" .string (·.id) fun r v => { r with id := v },
     .optional "username" .string (·.username) fun r v => { r with username := v },
     .optional "fullName" .string (·.fullName) fun r v => { r with fullName := v },
     .required "email" .string (·.email) fun r v => { r with email := v },
     .optional "authMethod" .string (·.authMethod) fun r v => { r with authMethod := v },
     .withDefault "admin" .boolean false (·.admin) fun r v => { r with admin := v },
     .optional "group" .string (·.group) fun r v => { r with group := v },
     .optional "household" .string (·.household) fun r v => { r with household := v },
     .optional "groupId" .string (·.groupId) fun r v => { r with groupId := v },
     .optional "groupSlug" .string (·.groupSlug) fun r v => { r with groupSlug := v },
     .optional "householdId" .string (·.householdId) fun r v => { r with householdId := v },
     .optional "householdSlug" .string (·.householdSlug) fun r v => { r with householdSlug := v },
     .withDefault "canInvite" .boolean false (·.canInvite) fun r v => { r with canInvite := v },
     .withDefault "canManage" .boolean false (·.canManage) fun r v => { r with canManage := v },
     .withDefault "canManageHousehold" .boolean false (·.canManageHousehold)
       fun r v => { r with canManageHousehold := v },
     .withDefault "canOrganize" .boolean false (·.canOrganize)
       fun r v => { r with canOrganize := v }]
  remainder := none
  blank := {}

def codec : Codec UserOut := record.codec

end UserOut

/-- Whose password is to be reset. -/
structure ForgotPassword where
  email : String
deriving Inhabited

namespace ForgotPassword

def record : Record ForgotPassword where
  name := "ForgotPassword"
  members :=
    [.required "email" .string (·.email) fun r v => { r with email := v }]
  remainder := none
  blank := default

def codec : Codec ForgotPassword := record.codec

end ForgotPassword

/-- A token that resets a password. -/
structure PasswordResetToken where
  token : String
deriving Inhabited

namespace PasswordResetToken

def record : Record PasswordResetToken where
  name := "PasswordResetToken"
  members :=
    [.required "token" .string (·.token) fun r v => { r with token := v }]
  remainder := none
  blank := default

def codec : Codec PasswordResetToken := record.codec

end PasswordResetToken

/-- How many users have been unlocked. -/
structure UnlockResults where
  unlocked : Int64
deriving Inhabited

namespace UnlockResults

def record : Record UnlockResults where
  name := "UnlockResults"
  members :=
    [.required "unlocked" .integer (·.unlocked) fun r v => { r with unlocked := v }]
  remainder := none
  blank := default

def codec : Codec UnlockResults := record.codec

end UnlockResults

/-- A login: what is sent to get a token. -/
structure AuthRequest where
  username : String
  password : String
  rememberMe : Bool
deriving Inhabited

namespace AuthRequest

def record : Record AuthRequest where
  name := "AuthRequest"
  members :=
    [.required "username" .string (·.username) fun r v => { r with username := v },
     .required "password" .string (·.password) fun r v => { r with password := v },
     .withDefault "remember_me" .boolean false (·.rememberMe) fun r v => { r with rememberMe := v }]
  remainder := none
  blank := default

def codec : Codec AuthRequest := record.codec

end AuthRequest

/-- The answer to a login. -/
structure AuthToken where
  accessToken : String
  tokenType : String
deriving Inhabited

namespace AuthToken

def record : Record AuthToken where
  name := "AuthToken"
  members :=
    [.required "access_token" .string (·.accessToken) fun r v => { r with accessToken := v },
     .withDefault "token_type" .string "" (·.tokenType) fun r v => { r with tokenType := v }]
  remainder := none
  blank := default

def codec : Codec AuthToken := record.codec

end AuthToken

end RecipeClient
