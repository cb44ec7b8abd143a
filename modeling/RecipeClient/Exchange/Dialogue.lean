import RecipeClient.Exchange.Reply

/-!
# Dialogues

A dialogue is a computation that sends requests, goes on with what comes back, and tells its line
which token the requests from then on bear. It says nothing about what answers: `Dialogue.run`
carries it out over any `Line`, be it a network, a script of replies, or a model of the server.
-/

namespace RecipeClient

open Json (Codec)

/-- A computation that exchanges requests for replies. -/
inductive Dialogue (α : Type) : Type where
  /-- The end, with a value. -/
  | done (value : α)
  /-- A request is sent, and the reply decides what follows. -/
  | send (request : Request) (next : Reply → Dialogue α)
  /-- Later requests bear this token, or none. -/
  | bear (token : Option String) (next : Dialogue α)

/-- Something that answers requests and keeps a token, with states of a type. -/
structure Line (σ : Type) where
  /-- Answers a request. -/
  reply : Request → σ → Reply × σ
  /-- Takes the token that later requests bear. -/
  bear : Option String → σ → σ

namespace Dialogue

variable {α β σ : Type}

/-- One dialogue, and then another one that depends on its value. -/
def bind (first : Dialogue α) (second : α → Dialogue β) : Dialogue β :=
  match first with
  | done value => second value
  | send request next => send request fun reply => (next reply).bind second
  | bear token next => bear token (next.bind second)

instance : Monad Dialogue where
  pure := done
  bind := bind

/-- Sends a request and ends with the reply. -/
def ask (request : Request) : Dialogue Reply := send request done

/-- Sends a request and ends with the value in the answer. -/
def exchange (codec : Codec α) (request : Request) : Dialogue (Except Failure α) :=
  send request fun reply => done (reply.reading codec request)

/-- Sends a request, unless it cannot be made, and ends with the value in the answer. -/
def attempt (codec : Codec α) : Except BadParameters Request → Dialogue (Except Failure α)
  | .ok request => exchange codec request
  | .error bad => done (.error (.parameters bad))

/-- Carries out a dialogue over a line. -/
def run (line : Line σ) : Dialogue α → σ → α × σ
  | done value, state => (value, state)
  | send request next, state =>
    let (reply, later) := line.reply request state
    (next reply).run line later
  | bear token next, state => next.run line (line.bear token state)

end Dialogue

end RecipeClient
