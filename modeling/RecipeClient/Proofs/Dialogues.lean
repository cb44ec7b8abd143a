import RecipeClient.Exchange.Script

/-!
# Runs of dialogues

A run of a dialogue over a line sends its requests one after the other, each in the state in which
the ones before it left the line. What a run exchanges is a list of requests with their replies.

- `Dialogue.exchanges`: what a run exchanges
- `Dialogue.KeepsToken`: a dialogue that never tells its line a token
- `Line.Keeps`: a line that holds the token it was last told
-/

namespace RecipeClient

open Json (Codec)

/-- A request that was sent over a line, with the reply to it. -/
structure Exchanged (σ : Type) where
  request : Request
  /-- The state in which the request found the line. -/
  before : σ
  reply : Reply

namespace Dialogue

variable {α β σ : Type} {line : Line σ}

/-- The requests that a run sends, in order, with their replies. -/
def exchanges (line : Line σ) : Dialogue α → σ → List (Exchanged σ)
  | done _, _ => []
  | send request next, state =>
    let (reply, later) := line.reply request state
    ⟨request, state, reply⟩ :: (next reply).exchanges line later
  | bear token next, state => next.exchanges line (line.bear token state)

/-! ## One dialogue after another -/

theorem bind_assoc {γ : Type} (first : Dialogue α) (second : α → Dialogue β)
    (third : β → Dialogue γ) :
    (first >>= second) >>= third = first >>= fun a => second a >>= third := by
  show (first.bind second).bind third = first.bind fun a => (second a).bind third
  induction first with
  | done value => rfl
  | send request next ih => exact congrArg (send request) (funext ih)
  | bear token next ih => exact congrArg (bear token) ih

theorem run_bind (first : Dialogue α) (second : α → Dialogue β) (state : σ) :
    (first >>= second).run line state =
      (second (first.run line state).1).run line (first.run line state).2 := by
  show (first.bind second).run line state = _
  -- every reply leaves the line in another state, so the induction is for all of them
  induction first generalizing state with
  | done value => rfl
  | send request next ih => exact ih (line.reply request state).1 (line.reply request state).2
  | bear token next ih => exact ih (line.bear token state)

theorem exchanges_bind (first : Dialogue α) (second : α → Dialogue β) (state : σ) :
    (first >>= second).exchanges line state =
      first.exchanges line state ++
        (second (first.run line state).1).exchanges line (first.run line state).2 := by
  show (first.bind second).exchanges line state = _
  induction first generalizing state with
  | done value => rfl
  | send request next ih =>
    have hnext := ih (line.reply request state).1 (line.reply request state).2
    exact congrArg (List.cons _) hnext
  | bear token next ih => exact ih (line.bear token state)

/-- A script records what a run exchanges, with the token that it held at each request. -/
theorem sent_run (dialogue : Dialogue α) (script : Script) :
    (dialogue.run Script.line script).2.sent =
      script.sent ++ (dialogue.exchanges Script.line script).map fun e =>
        ⟨e.request, e.before.token⟩ := by
  induction dialogue generalizing script with
  | done value => exact (List.append_nil _).symm
  | send request next ih =>
    -- the request is recorded before the run goes on
    have hnext := ih (script.reply request).1 (script.reply request).2
    have hsent : (script.reply request).2.sent = script.sent ++ [⟨request, script.token⟩] := rfl
    rw [hsent, List.append_assoc] at hnext
    exact hnext
  | bear token next ih =>
    have hsent : (script.bear token).sent = script.sent := by
      unfold Script.bear
      split <;> rfl
    have hnext := ih (script.bear token)
    rw [hsent] at hnext
    exact hnext

/-! ## One request -/

section Attempt

variable {codec : Codec α} {request : Request} (state : σ)

theorem run_attempt :
    (attempt codec (.ok request)).run line state =
      ((line.reply request state).1.reading codec request, (line.reply request state).2) := rfl

theorem exchanges_attempt :
    (attempt codec (.ok request)).exchanges line state =
      [⟨request, state, (line.reply request state).1⟩] := rfl

end Attempt

/-! ## Tokens -/

/-- The dialogue never tells its line a token. -/
def KeepsToken : Dialogue α → Prop
  | done _ => True
  | send _ next => ∀ reply, (next reply).KeepsToken
  | bear _ _ => False

@[simp]
theorem keepsToken_pure (a : α) : KeepsToken (pure a) := trivial

theorem KeepsToken.bind {first : Dialogue α} {second : α → Dialogue β} (hfirst : first.KeepsToken)
    (hsecond : ∀ a, (second a).KeepsToken) : (first >>= second).KeepsToken := by
  show (first.bind second).KeepsToken
  induction first with
  | done value => exact hsecond value
  | send request next ih => exact fun reply => ih reply (hfirst reply)
  | bear token next => exact hfirst.elim

theorem keepsToken_attempt (codec : Codec α) (request : Except BadParameters Request) :
    (attempt codec request).KeepsToken := by
  cases request with
  | ok request => exact fun reply => trivial
  | error bad => trivial

end Dialogue

/-- A line holds a token: the one that it was last told, whatever it was asked since. -/
structure Line.Keeps {σ : Type} (line : Line σ) (token : σ → Option String) : Prop where
  bear : ∀ told state, token (line.bear told state) = told
  reply : ∀ request state, token (line.reply request state).2 = token state

namespace Dialogue

variable {α σ : Type} {line : Line σ} {token : σ → Option String} {dialogue : Dialogue α}

theorem KeepsToken.run (h : dialogue.KeepsToken) (hline : line.Keeps token) (state : σ) :
    token (dialogue.run line state).2 = token state := by
  induction dialogue generalizing state with
  | done value => rfl
  | send request next ih =>
    have hnext := ih _ (h (line.reply request state).1) (line.reply request state).2
    exact hnext.trans (hline.reply request state)
  | bear told next => exact h.elim

/-- Every request of the dialogue finds the line with the token that it holds in the beginning. -/
theorem KeepsToken.before (h : dialogue.KeepsToken) (hline : line.Keeps token) (state : σ) :
    ∀ e ∈ dialogue.exchanges line state, token e.before = token state := by
  induction dialogue generalizing state with
  | done value => exact fun e he => absurd he List.not_mem_nil
  | send request next ih =>
    intro e he
    rcases List.mem_cons.mp he with rfl | he
    · rfl
    · have hnext := ih _ (h (line.reply request state).1) (line.reply request state).2 e he
      exact hnext.trans (hline.reply request state)
  | bear told next => exact h.elim

end Dialogue

end RecipeClient
