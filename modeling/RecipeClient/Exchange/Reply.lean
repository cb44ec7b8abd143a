import RecipeClient.Exchange.Failure
import RecipeClient.Text.Blank

/-!
# Replies

What comes back for a request: an answer of the server, or the report that there is none. A reply
is turned into the body of a carried out request by `Reply.body`, and into a value by
`Reply.reading`.
-/

namespace RecipeClient

open Json (Codec)

/-- What comes back for a request. -/
inductive Reply where
  /-- An answer of the server. -/
  | answer (status : Status) (body : String)
  /-- No whole answer arrived; the text says why. -/
  | lost (message : String)
deriving Inhabited

namespace Reply

/-- The body of the answer to a request that was carried out. -/
def body (request : Request) : Reply → Except Failure String
  | answer status text =>
    if status.isSuccess then .ok text
    else .error (.rejected request.method request.path status text)
  | lost message => .error (.network message)

/-- The text that a body stands for: a blank body stands for `null`. -/
def meaning (body : String) : String := if Text.isAllBlank body then "null" else body

/-- Reads the body of an answer to a request. -/
def decode {α : Type} (codec : Codec α) (request : Request) (body : String) : Except Failure α :=
  (codec.ofText (meaning body)).mapError (.unreadable request.path)

/-- The value in the answer to a request. -/
def reading {α : Type} (codec : Codec α) (request : Request) (reply : Reply) : Except Failure α :=
  (reply.body request).bind (decode codec request)

end Reply

end RecipeClient
