import RecipeClient.Api.Operation
import RecipeClient.Proofs.Dialogues
import RecipeClient.Proofs.Json.Tokens

/-!
# Calls are single exchanges

A call asks the server for one operation. Unless the operation lists something with parameters
that no request can express, the call sends one request, and what it ends with depends on the reply
alone: it is the failure of the line as it is, or what the body of the answer reads as.

- `Call.Reports`: what a call makes of the reply to its request
- `Call.reports_exchange`: a call sends one request and reports the reply to it
-/

namespace RecipeClient

open Json (Codec Value)

/-! ## Replies -/

namespace Reply

variable {α : Type} {codec : Codec α} {request : Request} {a : α}

/-- What is read from a reply is read from what the body of an answer stands for. -/
theorem ofText_of_reading {reply : Reply} (h : reply.reading codec request = .ok a) :
    ∃ status body, reply = .answer status body ∧ codec.ofText (meaning body) = .ok a := by
  obtain ⟨text, hbody, hdecode⟩ := Json.bind_eq_ok.mp h
  cases reply with
  | lost message => exact absurd hbody nofun
  | answer status body =>
    rw [Reply.body] at hbody
    split at hbody
    · obtain rfl := Except.ok.inj hbody
      exact ⟨status, body, rfl, Json.mapError_eq_ok.mp hdecode⟩
    · exact absurd hbody nofun

theorem reading_answer {body : String} (h : codec.ofText (meaning body) = .ok a) :
    (answer .okay body).reading codec request = .ok a := by
  show (codec.ofText (meaning body)).mapError _ = .ok a
  exact Json.mapError_eq_ok.mpr h

end Reply

/-! ## Requests of operations -/

namespace Operation

/-- The additional parameters of an operation that lists something. -/
def parameters? : Operation → Option Value
  | list _ _ _ parameters => some parameters
  | listEvents _ _ parameters => some parameters
  | listMembers _ _ parameters => some parameters
  | _ => none

/-- The operation lists something with parameters that are neither `null` nor an object. -/
def Unaskable (o : Operation) : Prop :=
  ∃ parameters, o.parameters? = some parameters ∧ parameters ≠ .null ∧
    ∀ members, parameters ≠ .object members

/-- The operation creates a recipe from photographs. -/
def IsFromImages (o : Operation) : Prop := ∃ images language, o = .createFromImages images language

/-- The operation can be asked for by a request, with a limit on its time only for photographs. -/
def HasRequest (o : Operation) : Prop :=
  ∃ request, o.request = .ok request ∧ (request.timeout ≠ none ↔ o.IsFromImages)

theorem hasRequest_of_timeout_eq_none {o : Operation} {request : Request}
    (h : o.request = .ok request) (htimeout : request.timeout = none) (ho : ¬ o.IsFromImages) :
    o.HasRequest :=
  ⟨request, h, fun hlimited => absurd htimeout hlimited, fun himages => absurd himages ho⟩

/-- The parameters of a page are an object or `null`, or there is no request for it. -/
theorem pageRequest_cases (path : String) (page perPage : Int64) (parameters : Value) :
    ((parameters ≠ .null ∧ ∀ members, parameters ≠ .object members) ∧
        ∃ bad, pageRequest path page perPage parameters = .error bad) ∨
      ((parameters = .null ∨ ∃ members, parameters = .object members) ∧
        ∃ selected, pageRequest path page perPage parameters = .ok (.get selected)) := by
  cases parameters with
  | null => exact Or.inr ⟨Or.inl rfl, _, rfl⟩
  | object members => exact Or.inr ⟨Or.inr ⟨members, rfl⟩, _, rfl⟩
  | boolean b => exact Or.inl ⟨⟨Value.noConfusion, fun _ => Value.noConfusion⟩, _, rfl⟩
  | number n => exact Or.inl ⟨⟨Value.noConfusion, fun _ => Value.noConfusion⟩, _, rfl⟩
  | string s => exact Or.inl ⟨⟨Value.noConfusion, fun _ => Value.noConfusion⟩, _, rfl⟩
  | array items => exact Or.inl ⟨⟨Value.noConfusion, fun _ => Value.noConfusion⟩, _, rfl⟩

/-- An operation that asks for a page has a request unless its parameters are amiss. -/
theorem request_cases_of_page {o : Operation} {path : String} {page perPage : Int64}
    {parameters : Value} (hparameters : o.parameters? = some parameters)
    (hrequest : o.request = pageRequest path page perPage parameters) (ho : ¬ o.IsFromImages) :
    (o.Unaskable ∧ ∃ bad, o.request = .error bad) ∨ (¬ o.Unaskable ∧ o.HasRequest) := by
  rcases pageRequest_cases path page perPage parameters with ⟨hamiss, hbad⟩ | ⟨hfine, selected, hok⟩
  · exact Or.inl ⟨⟨parameters, hparameters, hamiss⟩, hrequest ▸ hbad⟩
  · refine Or.inr ⟨?_, hasRequest_of_timeout_eq_none (hrequest.trans hok) rfl ho⟩
    rintro ⟨other, hother, hnull, hobject⟩
    obtain rfl := Option.some.inj (hparameters.symm.trans hother)
    rcases hfine with rfl | ⟨members, rfl⟩
    · exact hnull rfl
    · exact hobject members rfl

theorem not_unaskable {o : Operation} (h : o.parameters? = none) : ¬ o.Unaskable := by
  rintro ⟨parameters, hparameters, _⟩
  exact absurd (h.symm.trans hparameters) nofun

/-- Every operation has a request unless its parameters are amiss. -/
theorem request_cases (o : Operation) :
    (o.Unaskable ∧ ∃ bad, o.request = .error bad) ∨ (¬ o.Unaskable ∧ o.HasRequest) := by
  cases o with
  | list => exact request_cases_of_page rfl rfl nofun
  | listEvents => exact request_cases_of_page rfl rfl nofun
  | listMembers => exact request_cases_of_page rfl rfl nofun
  | createFromImages images language =>
    refine Or.inr ⟨not_unaskable rfl, _, rfl, ?_⟩
    exact ⟨fun _ => ⟨images, language, rfl⟩, fun _ => nofun⟩
  | _ => exact Or.inr ⟨not_unaskable rfl, hasRequest_of_timeout_eq_none rfl rfl nofun⟩

section Runs

variable {σ : Type} {line : Line σ} {state : σ} {o : Operation} {request : Request}

theorem run_perform (h : o.request = .ok request) :
    o.perform.run line state =
      ((line.reply request state).1.reading o.codec request, (line.reply request state).2) := by
  rw [perform, h]
  exact Dialogue.run_attempt state

theorem exchanges_perform (h : o.request = .ok request) :
    o.perform.exchanges line state = [⟨request, state, (line.reply request state).1⟩] := by
  rw [perform, h]
  exact Dialogue.exchanges_attempt state

end Runs

end Operation

/-! ## Calls -/

/-- A call of the client for something that the server offers. -/
inductive Call where
  /-- The server is asked for an operation. -/
  | ask (o : Operation)
  /-- The server is asked for a token, and a link is made from it. -/
  | exportLink (slug : String)

namespace Call

/-- What the server is asked for. -/
def operation : Call → Operation
  | ask o => o
  | exportLink slug => .exportToken slug

def Result : Call → Type
  | ask o => o.Answer
  | exportLink _ => String

/-- What is made of the answer. -/
def result : (c : Call) → c.operation.Answer → c.Result
  | ask _, answer => answer
  | exportLink slug, (answer : RecipeZipTokenResponse) => exportPath slug answer.token

def perform : (c : Call) → Dialogue (Except Failure c.Result)
  | ask o => o.perform
  | exportLink slug => RecipeClient.exportLink slug

/-- A body stands for a text: for itself, or for `null` if it consists of blanks only. -/
inductive StandsFor (body : String) : String → Prop where
  | blank (blank : ∀ c ∈ body.toList, Text.isBlank c = true) : StandsFor body "null"
  | itself (visible : ∃ c ∈ body.toList, Text.isBlank c = false) : StandsFor body body

/-- What a call makes of the reply to its request. -/
inductive Reports (c : Call) (request : Request) : Reply → Except Failure c.Result → Prop where
  | lost (message : String) : Reports c request (.lost message) (.error (.network message))
  | rejected {status : Status} {body : String} (refused : status.isSuccess = false) :
      Reports c request (.answer status body)
        (.error (.rejected request.method request.path status body))
  /-- Of the answer to a request that was carried out, nothing but the body counts. -/
  | read {status : Status} {body text : String} (success : status.isSuccess = true)
      (stands : StandsFor body text) {answer : c.operation.Answer}
      (read : c.operation.codec.ofText text = .ok answer) :
      Reports c request (.answer status body) (.ok (c.result answer))
  | unreadable {status : Status} {body text : String} (success : status.isSuccess = true)
      (stands : StandsFor body text) {problem : Json.Problem}
      (unreadable : c.operation.codec.ofText text = .error problem) :
      Reports c request (.answer status body) (.error (.unreadable request.path problem))

theorem standsFor_meaning (body : String) : StandsFor body (Reply.meaning body) := by
  unfold Reply.meaning Text.isAllBlank
  split
  · rename_i hblank
    exact .blank (List.all_eq_true.mp hblank)
  · rename_i hvisible
    obtain ⟨c, hc, hcharacter⟩ := List.all_eq_false.mp (Bool.eq_false_iff.mpr hvisible)
    exact .itself ⟨c, hc, Bool.eq_false_iff.mpr hcharacter⟩

/-- The value that is read from a reply is reported, and so is the failure if there is none. -/
theorem reports_reading (c : Call) (request : Request) (reply : Reply) :
    c.Reports request reply ((reply.reading c.operation.codec request).map c.result) := by
  cases reply with
  | lost message => exact .lost message
  | answer status body =>
    cases hstatus : status.isSuccess with
    | false =>
      have hbody : (Reply.answer status body).body request =
          .error (.rejected request.method request.path status body) := by
        simp [Reply.body, hstatus]
      rw [Reply.reading, hbody]
      exact .rejected hstatus
    | true =>
      have hbody : (Reply.answer status body).body request = .ok body := by
        simp [Reply.body, hstatus]
      rw [Reply.reading, hbody]
      -- what the body stands for is read as the answer, or it is no answer
      show c.Reports request _ ((Reply.decode c.operation.codec request body).map c.result)
      unfold Reply.decode
      cases hread : c.operation.codec.ofText (Reply.meaning body) with
      | ok answer => exact .read hstatus (standsFor_meaning body) hread
      | error problem => exact .unreadable hstatus (standsFor_meaning body) hread

section Runs

variable {σ : Type} {line : Line σ} {state : σ} {c : Call}

theorem perform_of_error {bad : BadParameters} (h : c.operation.request = .error bad) :
    c.perform = .done (.error (.parameters bad)) := by
  cases c with
  | ask o => exact congrArg (Dialogue.attempt o.codec) h
  | exportLink slug => exact absurd h nofun

theorem run_perform {request : Request} (h : c.operation.request = .ok request) :
    (c.perform.run line state).1 =
      ((line.reply request state).1.reading c.operation.codec request).map c.result := by
  cases c with
  | ask o =>
    have hrun : (o.perform.run line state).1 =
        (line.reply request state).1.reading o.codec request :=
      congrArg Prod.fst (Operation.run_perform h)
    -- the answer itself is the result
    exact hrun.trans (congrFun Except.map_id _).symm
  | exportLink slug =>
    obtain rfl := Except.ok.inj h
    rfl

theorem exchanges_perform {request : Request} (h : c.operation.request = .ok request) :
    c.perform.exchanges line state = [⟨request, state, (line.reply request state).1⟩] := by
  cases c with
  | ask o => exact Operation.exchanges_perform h
  | exportLink slug =>
    obtain rfl := Except.ok.inj h
    rfl

end Runs

/-- A call sends one request, with a limit on its time for photographs only, and reports the reply
to it. Only a list with parameters that are neither `null` nor an object is not asked for. -/
theorem reports_exchange {σ : Type} (line : Line σ) (state : σ) (c : Call) :
    (c.operation.Unaskable → c.perform.exchanges line state = [] ∧
      ∃ bad, (c.perform.run line state).1 = .error (.parameters bad)) ∧
    (¬ c.operation.Unaskable → ∃ request reply,
      c.perform.exchanges line state = [⟨request, state, reply⟩] ∧
      c.Reports request reply (c.perform.run line state).1 ∧
      (request.timeout ≠ none ↔ ∃ images language,
        c = .ask (.createFromImages images language))) := by
  rcases c.operation.request_cases with ⟨hamiss, bad, hbad⟩ | ⟨hfine, request, hok, htimeout⟩
  · refine ⟨?_, fun hfine => absurd hamiss hfine⟩
    intro _
    rw [perform_of_error hbad]
    exact ⟨rfl, bad, rfl⟩
  · refine ⟨fun hamiss => absurd hamiss hfine, ?_⟩
    intro _
    refine ⟨request, (line.reply request state).1, exchanges_perform hok, ?_, htimeout.trans ?_⟩
    · rw [run_perform hok]
      exact reports_reading c request _
    · -- an export is asked for by another operation
      cases c with
      | ask o =>
        constructor
        · rintro ⟨images, language, ho⟩
          exact ⟨images, language, congrArg ask ho⟩
        · rintro ⟨images, language, hc⟩
          exact ⟨images, language, ask.inj hc⟩
      | exportLink slug => exact ⟨nofun, nofun⟩

end Call

end RecipeClient
