import RecipeClient.Text.Blank

/-!
# Configuration

Where the server is, who the user is, and how long to wait, all taken from named variables. A
variable that is blank counts as not set. An unreadable number of seconds leaves the usual one.
-/

namespace RecipeClient

/-- What the client has to know before it starts. -/
structure Config where
  /-- The address of the server, without slashes at the end. -/
  address : String := "http://localhost:9000"
  /-- A token that the user was given for a long time; it wins over a name and a password. -/
  token : Option String := none
  /-- The user's name. -/
  username : Option String := none
  /-- The user's password. -/
  password : Option String := none
  /-- How many seconds the server may take, where a request does not say otherwise. -/
  timeoutSeconds : Nat := 30
deriving DecidableEq, Inhabited

namespace Config

/-- A number of at most 64 bits, with an optional `+` in front. -/
def number? (cs : List Char) : Option Nat :=
  let digits := match cs with
    | '+' :: rest => rest
    | _ => cs
  if digits ≠ [] ∧ digits.all Char.isDigit then
    let n := digits.foldl (fun sofar c => 10 * sofar + (c.toNat - '0'.toNat)) 0
    if n < Nat.pow 2 64 then some n else none
  else none

/-- The value of a variable, if it is set and not blank. -/
def meaningful? (lookup : String → Option String) (name : String) : Option String :=
  (lookup name).filter fun value => !Text.isAllBlank value

/-- The configuration that variables give. -/
def ofVariables (lookup : String → Option String) : Config :=
  let usual : Config := {}
  { address :=
      ((meaningful? lookup "MEALIE_BASE_URL").map Text.withoutTrailingSlashes).getD
        usual.address
    token := meaningful? lookup "MEALIE_API_TOKEN"
    username := meaningful? lookup "MEALIE_USERNAME"
    password := meaningful? lookup "MEALIE_PASSWORD"
    timeoutSeconds :=
      ((meaningful? lookup "MEALIE_TIMEOUT_SECS").bind fun value =>
        number? (Text.trim value.toList)).getD usual.timeoutSeconds }

/-- The name and the password, if both are known. -/
def credentials (config : Config) : Option (String × String) :=
  match config.username, config.password with
  | some username, some password => some (username, password)
  | _, _ => none

end Config

end RecipeClient
