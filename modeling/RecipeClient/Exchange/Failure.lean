import RecipeClient.Exchange.Request
import RecipeClient.Exchange.Status

/-!
# Failures

Why a call has no answer. `Failure.chain` lists the messages of a failure, the outermost first;
only a login that never reached the server has more than one.
-/

namespace RecipeClient

open Json (Problem)

/-- Why the server gave no token. -/
inductive LoginFailure where
  /-- The name or the password is wrong. -/
  | badCredentials
  /-- The account may not log in. -/
  | locked
  /-- There is no such server at the address. -/
  | noServer (address : String)
  /-- The server failed. -/
  | serverError (status : Status) (body : String)
  /-- The server refused for another reason. -/
  | refused (status : Status) (body : String)
  /-- The answer holds no token. -/
  | unreadable (problem : Problem)

namespace LoginFailure

/-- The text that reports a failed login. -/
def message : LoginFailure → String
  | badCredentials => "Authentication failed: Invalid username or password"
  | locked => "Access denied: User account may be locked"
  | noServer address => s!"Mealie API endpoint not found. Check your base URL: {address}"
  | serverError status body => s!"Mealie server error ({status.text}): {body}"
  | refused status body => s!"Authentication failed with status {status.text}: {body}"
  | unreadable problem => s!"Invalid response from Mealie server: {problem.message}"

/-- What a status says about a login at an address. -/
def ofStatus (address : String) (status : Status) (body : String) : LoginFailure :=
  if status.code = 400 ∨ status.code = 401 then badCredentials
  else if status.code = 403 then locked
  else if status.code = 404 then noServer address
  else if 500 ≤ status.code ∧ status.code ≤ 599 then serverError status body
  else refused status body

end LoginFailure

/-- Why a call has no answer. -/
inductive Failure where
  /-- The server did not carry out the request. -/
  | rejected (method : Method) (path : String) (status : Status) (body : String)
  /-- The body of the answer is not what was asked for. -/
  | unreadable (path : String) (problem : Problem)
  /-- The parameters of the request are not an object; nothing was sent. -/
  | parameters (bad : BadParameters)
  /-- There was no answer, or not a whole one. -/
  | network (message : String)
  /-- The server gave no token. -/
  | login (reason : LoginFailure)
  /-- A login at an address failed before the server could refuse it. -/
  | unreached (address : String) (cause : Failure)

namespace Failure

/-- The messages of a failure, the outermost first. -/
def chain : Failure → List String
  | rejected method path status body =>
    [s!"Mealie API returned {status.text} for {method.name} {path}: {body}"]
  | unreadable path problem => [s!"Invalid response body from {path}: {problem.message}"]
  | parameters bad => [bad.message]
  | network message => [message]
  | login reason => [reason.message]
  | unreached address cause => s!"Failed to authenticate against {address}" :: cause.chain

/-- The outermost message of a failure. -/
def message (f : Failure) : String := f.chain.headD ""

/-- The status with which the server answered. -/
def status? : Failure → Option Status
  | rejected _ _ status _ => some status
  | _ => none

/-- Whether the server does not have what was asked for. -/
def isNotFound (f : Failure) : Bool := f.status? == some .notFound

end Failure

end RecipeClient
