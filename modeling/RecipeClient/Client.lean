import RecipeClient.Api.Path
import RecipeClient.Config
import RecipeClient.Data.User
import RecipeClient.Exchange.Dialogue

/-!
# The client and its token

A client knows the address of its server and the token that it was given. The line that carries
the requests keeps a copy of the token. Every operation here that changes one copy changes the
other with it, and a login that fails changes neither.
-/

namespace RecipeClient

/-- A client of a server. -/
structure Client where
  /-- The address of the server, as it was given. -/
  address : String
  /-- The token, if the user is logged in. -/
  token : Option String := none
deriving DecidableEq, Inhabited

namespace Client

/-- Whether the user is logged in. -/
def isAuthenticated (client : Client) : Bool := client.token.isSome

/-- The start of the token, for display. -/
def preview (client : Client) : Option String :=
  client.token.map fun token => String.ofList (token.toList.take 10) ++ "..."

/-- Takes a token, for the requests to come as well. -/
def setToken (token : String) (client : Client) : Dialogue Client :=
  .bear (some token) (.done { client with token := some token })

/-- Drops the token, for the requests to come as well. -/
def logout (client : Client) : Dialogue Client :=
  .bear none (.done { client with token := none })

/-! ## Login -/

/-- The request that exchanges a name and a password for a token. -/
def loginRequest (username password : String) : Except BadParameters Request :=
  Request.posting Path.login
    (AuthRequest.codec.toValue { username, password, rememberMe := false })

/-- What a failed exchange says about a login at an address. -/
def loginFailure (address : String) : Failure → Failure
  | .rejected _ _ status body => .login (.ofStatus address status body)
  | .unreadable _ problem => .login (.unreadable problem)
  | other => .unreached address other

/-- Exchanges a name and a password for a token, and takes it. -/
def login (username password : String) (client : Client) :
    Dialogue (Except Failure Unit × Client) := do
  match ← Dialogue.attempt AuthToken.codec (loginRequest username password) with
  | .ok answer =>
    let client ← client.setToken answer.accessToken
    return (.ok (), client)
  | .error failure =>
    let address := Text.withoutTrailingSlashes client.address
    return (.error (loginFailure address failure), client)

/-- The client that a configuration describes, with its token if there is one. -/
def ofConfig (config : Config) : Dialogue Client :=
  let client : Client := { address := config.address }
  match config.token with
  | some token => client.setToken token
  | none => .done client

end Client

end RecipeClient
