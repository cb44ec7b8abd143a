import RecipeClient.Exchange.Dialogue

/-!
# Scripted replies

A line that answers from a list of replies, one for each request, and keeps a record of what was
sent and under which token. When the list is used up, every request is answered with `null`.
-/

namespace RecipeClient

/-- A request that was sent, with the token that it bore. -/
structure Sent where
  request : Request
  token : Option String

/-- A list of replies to come, and a record of the requests so far. -/
structure Script where
  /-- The token of the requests to come. -/
  token : Option String := none
  /-- Whether the line takes tokens at all. -/
  takesTokens : Bool := true
  /-- The replies to come. -/
  replies : List Reply := []
  /-- The requests so far, in order. -/
  sent : List Sent := []

namespace Script

/-- The reply to a request for which none is left. -/
def usual : Reply := .answer .okay "null"

/-- Answers a request with the next reply. -/
def reply (request : Request) (s : Script) : Reply × Script :=
  (s.replies.headD usual,
    { s with replies := s.replies.tail, sent := s.sent ++ [⟨request, s.token⟩] })

/-- Takes a token, if the line takes any. -/
def bear (token : Option String) (s : Script) : Script :=
  if s.takesTokens then { s with token } else s

/-- The line that answers from scripts. -/
def line : Line Script := ⟨reply, bear⟩

/-- Adds replies behind those that are left. -/
def enqueue (replies : List Reply) (s : Script) : Script :=
  { s with replies := s.replies ++ replies }

/-- Forgets what was sent so far. -/
def forget (s : Script) : Script := { s with sent := [] }

end Script

end RecipeClient
