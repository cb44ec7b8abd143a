import RecipeClient.Client
import RecipeClient.Proofs.Calls
import RecipeClient.Proofs.StoreMirror
import RecipeClient.Wire.Server

/-!
# The client and its line hold the same token

The token is kept twice: by the client, which tells it, and by the line, which puts it on the
requests. Only taking a token, dropping it and a login that succeeds change it, and they change
both copies. All else that a client is used for, at whatever time it was made, sends its requests
under the token that the line holds.

- `Session`: a client at work, with the stores that were opened with it
- `Session.follows_step`: what one step does to the two copies
- `Session.token_agrees`: the copies agree after any steps, and every request bears the latest token
-/

namespace RecipeClient

open Dialogue (keepsToken_attempt keepsToken_pure)

/-! ## What leaves the token alone -/

theorem Operation.keepsToken_perform (o : Operation) : o.perform.KeepsToken :=
  keepsToken_attempt o.codec o.request

theorem Call.keepsToken_perform (c : Call) : c.perform.KeepsToken := by
  cases c with
  | ask o => exact o.keepsToken_perform
  | exportLink slug => exact (Operation.exportToken slug).keepsToken_perform.bind keepsToken_pure

namespace ToolStore

theorem keepsToken_performing (store : ToolStore) (o : Operation) :
    (store.performing o).KeepsToken :=
  o.keepsToken_perform.bind fun _ => keepsToken_pure _

theorem keepsToken_fetch (store : ToolStore) : store.fetch.KeepsToken :=
  (store.keepsToken_performing listing).bind fun _ => keepsToken_pure _

theorem keepsToken_refresh (store : ToolStore) : store.refresh.KeepsToken := by
  apply store.keepsToken_fetch.bind
  rintro ⟨answer | answer, later⟩ <;> exact keepsToken_pure _

theorem keepsToken_start (filled : Bool) : (start filled).KeepsToken := by
  unfold start
  split
  · apply (keepsToken_fetch {}).bind
    rintro ⟨answer | answer, later⟩ <;> exact keepsToken_pure _
  · exact keepsToken_pure _

theorem keepsToken_submit (store : ToolStore) (form : Option DraftForm) :
    (store.submit form).KeepsToken := by
  apply (store.keepsToken_performing _).bind
  rintro ⟨answer | answer, later⟩ <;> exact keepsToken_pure _

theorem keepsToken_create (store : ToolStore) (form : Option DraftForm) :
    (store.create form).KeepsToken := by
  unfold create
  split
  · exact store.keepsToken_submit none
  · split
    · exact store.keepsToken_submit _
    · exact keepsToken_pure _

theorem keepsToken_update (store : ToolStore) : store.update.KeepsToken := by
  apply (store.keepsToken_performing _).bind
  rintro ⟨answer | answer, later⟩ <;> exact keepsToken_pure _

theorem keepsToken_delete (store : ToolStore) (id : String) : (store.delete id).KeepsToken := by
  apply (store.keepsToken_performing _).bind
  rintro ⟨answer | answer, later⟩ <;> exact keepsToken_pure _

theorem keepsToken_act (store : ToolStore) (action : Action) : (store.act action).KeepsToken := by
  cases action with
  | fetch => exact store.keepsToken_fetch.bind fun _ => keepsToken_pure _
  | refresh => exact store.keepsToken_refresh.bind fun _ => keepsToken_pure _
  | create form => exact (store.keepsToken_create form).bind fun _ => keepsToken_pure _
  | update => exact store.keepsToken_update.bind fun _ => keepsToken_pure _
  | delete id => exact (store.keepsToken_delete id).bind fun _ => keepsToken_pure _
  | reset => exact keepsToken_pure _
  | edit draft => exact keepsToken_pure _

end ToolStore

/-! ## Sessions -/

/-- A client at work, with the stores that were opened with it. -/
structure Session where
  client : Client
  stores : List ToolStore := []

namespace Session

/-- What is done with a client. -/
inductive Step where
  | setToken (token : String)
  | logout
  | login (username password : String)
  /-- A call through any of the client's parts, whenever the part was made. -/
  | call (c : Call)
  | openStore (filled : Bool)
  /-- An action on one of the stores; nothing if there is no such store. -/
  | act (index : Nat) (action : ToolStore.Action)

/-- The session with one more store, if it could be opened. -/
def opened (session : Session) : Except Failure ToolStore → Session
  | .ok store => { session with stores := session.stores ++ [store] }
  | .error _ => session

def step (session : Session) : Step → Dialogue Session
  | .setToken token => do
    let client ← session.client.setToken token
    return { session with client }
  | .logout => do
    let client ← session.client.logout
    return { session with client }
  | .login username password => do
    let (_, client) ← session.client.login username password
    return { session with client }
  | .call c => do
    let _ ← c.perform
    return session
  | .openStore filled => do
    let answer ← ToolStore.start filled
    return session.opened answer
  | .act index action =>
    match session.stores[index]? with
    | none => return session
    | some store => do
      let store ← store.act action
      return { session with stores := session.stores.set index store }

/-- A step that was made, with what it exchanged. -/
structure Event (σ : Type) where
  step : Step
  exchanged : List (Exchanged σ)

/-- The token that an event gives, or that there is none any more; nothing if it leaves the token. A
login gives the token that is read from the reply to it. -/
def Event.gives {σ : Type} (event : Event σ) : Option (Option String) :=
  match event.step, event.exchanged with
  | .setToken token, _ => some (some token)
  | .logout, _ => some none
  | .login _ _, [e] =>
    (e.reply.reading AuthToken.codec e.request).toOption.map fun answer => some answer.accessToken
  | _, _ => none

/-- The token that the latest of the events with a say about it gives. -/
def latest {σ : Type} (given : Option String) (events : List (Event σ)) : Option String :=
  (events.reverse.findSome? Event.gives).getD given

/-- Makes steps one after the other, and records them. -/
def run {σ : Type} (line : Line σ) : List Step → Session → σ → List (Event σ) × Session × σ
  | [], session, state => ([], session, state)
  | step :: steps, session, state =>
    let event := ⟨step, (session.step step).exchanges line state⟩
    let (session, state) := (session.step step).run line state
    let (events, reached) := run line steps session state
    (event :: events, reached)

/-- A client that was made over a line without a token: with none itself, or with the one of a
configuration. -/
inductive Made {σ : Type} (line : Line σ) (token : σ → Option String) :
    Option String → Client → σ → Prop where
  | ofAddress (address : String) {state : σ} (bare : token state = none) :
      Made line token none { address } state
  | ofConfig (config : Config) {state : σ} (bare : token state = none) :
      Made line token config.token ((Client.ofConfig config).run line state).1
        ((Client.ofConfig config).run line state).2

section Runs

variable {σ : Type} {line : Line σ} {token : σ → Option String} {session : Session} {state : σ}

theorem Made.token_eq {given : Option String} {client : Client} (hline : line.Keeps token)
    (h : Made line token given client state) : client.token = given ∧ token state = given := by
  cases h with
  | ofAddress address bare => exact ⟨rfl, bare⟩
  | @ofConfig config state bare =>
    unfold Client.ofConfig
    cases hconfig : config.token with
    | none => exact ⟨rfl, bare⟩
    | some told => exact ⟨rfl, hline.bear (some told) state⟩

/-! ## Steps -/

/-- What a step does to the copies of the token, when they agree. -/
structure Follows (line : Line σ) (token : σ → Option String) (step : Step) (session : Session)
    (state : σ) : Prop where
  agrees : token ((session.step step).run line state).2 =
    ((session.step step).run line state).1.client.token
  gives : ((session.step step).run line state).1.client.token =
    (Event.gives ⟨step, (session.step step).exchanges line state⟩).getD session.client.token
  under : ∀ e ∈ (session.step step).exchanges line state, token e.before = token state

/-- A step that tells no token leaves both copies. -/
theorem follows_of_keepsToken {step : Step} {α : Type} {dialogue : Dialogue α} {next : α → Session}
    (hline : line.Keeps token) (hsession : token state = session.client.token)
    (hstep : session.step step = dialogue >>= fun a => pure (next a))
    (hkeeps : dialogue.KeepsToken) (hclient : ∀ a, (next a).client = session.client)
    (hgives : ∀ exchanged : List (Exchanged σ), Event.gives ⟨step, exchanged⟩ = none) :
    Follows line token step session state := by
  have hall : (session.step step).KeepsToken := hstep ▸ hkeeps.bind fun a => keepsToken_pure _
  have hafter : ((session.step step).run line state).1.client = session.client := by
    rw [hstep, Dialogue.run_bind]
    exact hclient _
  refine ⟨?_, ?_, hall.before hline state⟩
  · rw [hafter, hall.run hline state, hsession]
  · rw [hafter, hgives]
    rfl

/-- A login is one request. Both copies take the token that is read from the reply, or none does. -/
theorem login_cases (line : Line σ) (state : σ) (client : Client) (username password : String) :
    ∃ request reply later, Client.loginRequest username password = .ok request ∧
      line.reply request state = (reply, later) ∧
      (client.login username password).exchanges line state = [⟨request, state, reply⟩] ∧
      ((∃ answer, reply.reading AuthToken.codec request = .ok answer ∧
          (client.login username password).run line state =
            ((.ok (), { client with token := some answer.accessToken }),
              line.bear (some answer.accessToken) later)) ∨
        ∃ failure told, reply.reading AuthToken.codec request = .error failure ∧
          (client.login username password).run line state = ((.error told, client), later)) := by
  obtain ⟨request, hrequest⟩ : ∃ request, Client.loginRequest username password = .ok request :=
    ⟨_, rfl⟩
  refine ⟨request, _, _, hrequest, rfl, ?_⟩
  rw [Client.login, hrequest, Dialogue.exchanges_bind, Dialogue.run_bind,
    Dialogue.exchanges_attempt, Dialogue.run_attempt]
  cases hread : (line.reply request state).1.reading AuthToken.codec request with
  | ok answer => exact ⟨rfl, Or.inl ⟨answer, rfl, rfl⟩⟩
  | error failure => exact ⟨rfl, Or.inr ⟨failure, _, rfl, rfl⟩⟩

theorem gives_login {username password : String} {request : Request} {reply : Reply} :
    Event.gives ⟨.login username password, [⟨request, state, reply⟩]⟩ =
      (reply.reading AuthToken.codec request).toOption.map fun answer => some answer.accessToken :=
  rfl

theorem follows_login (hline : line.Keeps token) (hsession : token state = session.client.token)
    (username password : String) :
    Follows line token (.login username password) session state := by
  obtain ⟨request, reply, later, _, hreply, hexchanges, hcases⟩ :=
    login_cases line state session.client username password
  -- no token is told after the login, so the step exchanges what the login does
  have hstep : (session.step (.login username password)).exchanges line state =
      [⟨request, state, reply⟩] := by
    rw [step, Dialogue.exchanges_bind, hexchanges]
    rfl
  have hunder : ∀ e ∈ (session.step (.login username password)).exchanges line state,
      token e.before = token state := by
    rw [hstep]
    intro e he
    rw [List.mem_singleton.mp he]
  rcases hcases with ⟨answer, hread, hrun⟩ | ⟨failure, told, hread, hrun⟩
  · refine ⟨?_, ?_, hunder⟩
    · rw [step, Dialogue.run_bind, hrun]
      exact hline.bear _ _
    · rw [hstep, gives_login, hread, step, Dialogue.run_bind, hrun]
      rfl
  · refine ⟨?_, ?_, hunder⟩
    · have hlater := hline.reply request state
      rw [hreply] at hlater
      rw [step, Dialogue.run_bind, hrun]
      exact hlater.trans hsession
    · rw [hstep, gives_login, hread, step, Dialogue.run_bind, hrun]
      rfl

theorem client_opened (answer : Except Failure ToolStore) :
    (session.opened answer).client = session.client := by
  cases answer <;> rfl

/-- Whatever is done, the copies agree again afterwards. -/
theorem follows_step (hline : line.Keeps token) (hsession : token state = session.client.token)
    (step : Step) : Follows line token step session state := by
  cases step with
  | setToken told => exact ⟨hline.bear (some told) state, rfl, nofun⟩
  | logout => exact ⟨hline.bear none state, rfl, nofun⟩
  | login username password => exact follows_login hline hsession username password
  | call c =>
    exact follows_of_keepsToken hline hsession rfl c.keepsToken_perform (fun _ => rfl) fun _ => rfl
  | openStore filled =>
    exact follows_of_keepsToken hline hsession rfl (ToolStore.keepsToken_start filled)
      client_opened fun _ => rfl
  | act index action =>
    cases hstore : session.stores[index]? with
    | none =>
      have hstep : session.step (.act index action) = pure () >>= fun _ => pure session := by
        simp only [Session.step, hstore]
        rfl
      exact follows_of_keepsToken hline hsession hstep (keepsToken_pure ()) (fun _ => rfl)
        fun _ => rfl
    | some store =>
      have hstep : session.step (.act index action) = store.act action >>= fun store =>
          pure { session with stores := session.stores.set index store } := by
        simp only [Session.step, hstore]
      exact follows_of_keepsToken hline hsession hstep (store.keepsToken_act action) (fun _ => rfl)
        fun _ => rfl

/-! ## Runs -/

theorem latest_cons (given : Option String) (event : Event σ) (events : List (Event σ)) :
    latest given (event :: events) = latest (event.gives.getD given) events := by
  unfold latest
  rw [List.reverse_cons, List.findSome?_append]
  cases events.reverse.findSome? Event.gives with
  | some found => rfl
  | none =>
    cases hgives : event.gives <;> simp [hgives]

/-- What holds of a run that was given a token in the beginning. -/
structure Agreement (line : Line σ) (token : σ → Option String) (given : Option String)
    (events : List (Event σ)) (session : Session) (state : σ) : Prop where
  copies : token state = session.client.token
  authenticated : session.client.isAuthenticated = true ↔ ∃ told, token state = some told
  latest : token state = latest given events
  /-- Every request of an event was sent under the token that the events before it gave. -/
  under : ∀ before event rest, events = before ++ event :: rest →
    ∀ e ∈ event.exchanged, token e.before = Session.latest given before
  /-- A login from here that fails changes neither copy. -/
  failed : ∀ username password failure client later,
    (session.client.login username password).run line state = ((.error failure, client), later) →
      client = session.client ∧ token later = token state
  /-- A login from here gives a token exactly if it succeeds. -/
  gives : ∀ username password,
    (Event.gives ⟨.login username password,
      (session.client.login username password).exchanges line state⟩).isSome = true ↔
        ((session.client.login username password).run line state).1.1 = .ok ()

theorem login_gives (client : Client) (username password : String) :
    (Event.gives ⟨.login username password,
      (client.login username password).exchanges line state⟩).isSome = true ↔
        ((client.login username password).run line state).1.1 = .ok () := by
  obtain ⟨request, reply, later, _, _, hexchanges, hcases⟩ :=
    login_cases line state client username password
  rw [hexchanges, gives_login]
  rcases hcases with ⟨answer, hread, hrun⟩ | ⟨failure, told, hread, hrun⟩
  · rw [hread, hrun]
    exact ⟨fun _ => rfl, fun _ => rfl⟩
  · rw [hread, hrun]
    exact ⟨nofun, nofun⟩

theorem login_failed (hline : line.Keeps token) {client after : Client} {username password : String}
    {failure : Failure} {later : σ}
    (h : (client.login username password).run line state = ((.error failure, after), later)) :
    after = client ∧ token later = token state := by
  obtain ⟨request, reply, between, _, hreply, _, hcases⟩ :=
    login_cases line state client username password
  rcases hcases with ⟨answer, _, hrun⟩ | ⟨_, told, _, hrun⟩
  · exact absurd (hrun.symm.trans h) nofun
  · obtain ⟨hanswer, rfl⟩ := Prod.mk.inj (hrun.symm.trans h)
    obtain ⟨_, rfl⟩ := Prod.mk.inj hanswer
    have hlater := hline.reply request state
    rw [hreply] at hlater
    exact ⟨rfl, hlater⟩

theorem agreement_run (hline : line.Keeps token) (steps : List Step) {given : Option String}
    (hclient : session.client.token = given) (hstate : token state = given) :
    Agreement line token given (run line steps session state).1 (run line steps session state).2.1
      (run line steps session state).2.2 := by
  induction steps generalizing session state given with
  | nil =>
    refine ⟨hstate.trans hclient.symm, ?_, hstate, ?_, fun _ _ _ _ _ => login_failed hline,
      login_gives session.client⟩
    · rw [run, hstate, ← hclient]
      exact Option.isSome_iff_exists
    · intro before event rest h
      exact absurd h (by simp [run])
  | cons step steps ih =>
    have hfollows := follows_step hline (hstate.trans hclient.symm) step
    -- the rest of the run is given the token that the step leaves
    have hrest := ih hfollows.gives (hfollows.agrees.trans hfollows.gives)
    rw [hclient] at hrest
    refine ⟨hrest.copies, hrest.authenticated, ?_, ?_, hrest.failed, hrest.gives⟩
    · rw [run, latest_cons]
      exact hrest.latest
    · intro before event rest h
      rw [run] at h
      cases before with
      | nil =>
        obtain ⟨rfl, _⟩ := List.cons.inj h
        intro e he
        exact (hfollows.under e he).trans hstate
      | cons first before =>
        obtain ⟨rfl, htail⟩ := List.cons.inj h
        intro e he
        rw [latest_cons]
        exact hrest.under before event rest htail e he

/-- The client and its line hold the same token after any steps, which is the one that was given
latest, and every request is sent under the token that was given latest before it. -/
theorem token_agrees (hline : line.Keeps token) {given : Option String} {client : Client}
    (hmade : Made line token given client state) (steps : List Step) :
    Agreement line token given (run line steps ⟨client, []⟩ state).1
      (run line steps ⟨client, []⟩ state).2.1 (run line steps ⟨client, []⟩ state).2.2 := by
  obtain ⟨hclient, hstate⟩ := hmade.token_eq hline
  exact agreement_run hline steps hclient hstate

end Runs

end Session

/-! ## A line to a server -/

namespace Wire.Server

theorem keeps_token : line.Keeps Server.token where
  bear told s := rfl
  reply request s := by
    show (s.reply request).2.token = s.token
    unfold reply
    split <;> rfl

/-- A message that arrives shows the token that the line holds. -/
theorem authorization_of_arrived (s : Server) (request : Request) :
    ∃ more, (s.reply request).2.arrived = s.arrived ++ more ∧
      ∀ message ∈ more, message.authorization = s.token.map ("Bearer " ++ ·) := by
  unfold reply
  split
  case h_1 => exact ⟨[], (List.append_nil _).symm, nofun⟩
  case h_2 message hmessage =>
    refine ⟨[message], rfl, ?_⟩
    intro other hother
    obtain rfl := List.mem_singleton.mp hother
    obtain ⟨target, _, hrest⟩ := Option.bind_eq_some_iff.mp hmessage
    split at hrest
    · exact absurd hrest nofun
    · obtain rfl := Option.some.inj hrest
      rfl

end Wire.Server

namespace Session

/-- What is done with a client whose token is refused: a login that fails, and one that does not. -/
def visits : List Step :=
  [.call (.ask ToolStore.listing), .openStore false, .login "ann" "wrong", .login "ann" "right",
    .act 0 .refresh, .logout, .act 0 .refresh]

/-- A configuration with a token that is no longer good. -/
def outdated : Config := { address := "http://mealie.test", token := some "stale" }

/-- A server that refuses, does not answer, and gives a token. -/
def moody : Wire.Server :=
  .ofAddress "http://mealie.test" "" "part" "connection reset"
    [.whole ⟨401, by decide⟩ "", .silence, .whole .okay "\x7b\"access_token\":\"fresh\"\x7d"]

/-- The configured token is on every request up to the login that succeeds, that login included. -/
theorem token_agrees_visits :
    let made := (Client.ofConfig outdated).run Wire.Server.line moody
    let ended := run Wire.Server.line visits ⟨made.1, []⟩ made.2
    Wire.Server.line.Keeps Wire.Server.token ∧
      Made Wire.Server.line Wire.Server.token outdated.token made.1 made.2 ∧
      Agreement Wire.Server.line Wire.Server.token outdated.token ended.1 ended.2.1 ended.2.2 ∧
      (ended.1.flatMap fun event => event.exchanged.map (·.before.token)) =
        [some "stale", some "stale", some "stale", some "fresh", none] := by
  have hmade : Made Wire.Server.line Wire.Server.token outdated.token _ _ :=
    .ofConfig outdated (rfl : moody.token = none)
  have hagrees := token_agrees Wire.Server.keeps_token hmade visits
  dsimp only
  refine ⟨Wire.Server.keeps_token, hmade, hagrees, ?_⟩
  decide +kernel

end Session

end RecipeClient
