import RecipeClient.Exchange.Dialogue
import RecipeClient.Wire.Message

/-!
# Servers

A line to a server that is described by what it sends back: one response for each message that
arrives, and `null` when no more are described. A message that cannot be sent does not arrive.

What a response says depends on its status. An interim status is followed by another response, so
the answer never comes if there is none. Some statuses have no body, whatever follows them.
-/

namespace RecipeClient.Wire

/-- What a server sends back. -/
inductive Response where
  | whole (status : Status) (body : String)
  /-- A status and a part of a body. -/
  | cut (status : Status)
  /-- Nothing. -/
  | silence
deriving Inhabited

namespace Response

/-- Whether another response is to follow. -/
def isInterim (status : Status) : Bool :=
  status.code == 100 || (102 ≤ status.code && status.code ≤ 199)

/-- Whether no body follows a status. -/
def isBodiless (status : Status) : Bool :=
  status.code == 101 || status.code == 204 || status.code == 304

/-- A body as text: a mark of the byte order at its start does not count. -/
def bodyText (body : String) : String :=
  match body.toList with
  | c :: cs => if c.toNat = 0xFEFF then String.ofList cs else body
  | [] => body

end Response

/-- A line to a server. -/
structure Server where
  /-- The server's name, with the scheme before it. -/
  name : String
  /-- What follows the name in the address, without slashes at the end. -/
  behind : String
  /-- What separates the parts of forms. -/
  boundary : String
  /-- What the system says about a connection that fails. -/
  cause : String
  /-- The token of the messages to come. -/
  token : Option String := none
  /-- What the server will send back. -/
  responses : List Response := []
  /-- The messages that arrived, in order. -/
  arrived : List Message := []

namespace Server

/-- A line to the server at an address, given by the name and what follows it. -/
def ofAddress (name behind boundary cause : String) (responses : List Response) : Server where
  name
  behind := Text.withoutTrailingSlashes behind
  boundary
  cause
  responses

/-- The report that the server cannot be reached. -/
def unreachable (s : Server) : Reply :=
  .lost s!"Failed to connect to Mealie server at {s.name}{s.behind}: {s.cause}"

/-- The reply to a request that a response makes. -/
def replyOf (s : Server) (request : Request) : Response → Reply
  | .whole status body =>
    if Response.isInterim status then s.unreachable
    else if Response.isBodiless status then .answer status ""
    else .answer status (Response.bodyText body)
  | .cut status =>
    if Response.isInterim status then s.unreachable
    else if Response.isBodiless status then .answer status ""
    else if status.isSuccess then
      .lost s!"Failed to read response body from {request.path}: {s.cause}"
    else .answer status "Unable to read error response"
  | .silence => s.unreachable

/-- The response to a message for which none is described. -/
def usual : Response := .whole .okay "null"

/-- Answers a request. -/
def reply (request : Request) (s : Server) : Reply × Server :=
  match Message.of? s.behind s.boundary s.token request with
  | none => (s.unreachable, s)
  | some message =>
    (s.replyOf request (s.responses.headD usual),
      { s with responses := s.responses.tail, arrived := s.arrived ++ [message] })

/-- Takes the token of the messages to come. -/
def bear (token : Option String) (s : Server) : Server := { s with token }

def line : Line Server := ⟨reply, bear⟩

/-- Adds responses behind those that are described. -/
def describe (responses : List Response) (s : Server) : Server :=
  { s with responses := s.responses ++ responses }

/-- Forgets the messages that arrived. -/
def forget (s : Server) : Server := { s with arrived := [] }

end Server

end RecipeClient.Wire
