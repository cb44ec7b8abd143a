import RecipeClient.Proofs.Calls
import RecipeClient.Proofs.StoreMirror

/-!
# Tasks of a store happen as a whole or not at all

A store that needs the server asks it once. If that fails, the store is as it was and the failure
is the one of the operation; otherwise the store takes the answer and gets a blank draft. A form
that is not valid keeps a creation from being asked for. In no case does a store go on waiting.

- `ToolStore.carryOut_eq`: a task is one request and a report of what is read from the reply
- `ToolStore.all_or_nothing`: a task that fails changes nothing, and no store is left waiting
-/

namespace RecipeClient.ToolStore

/-! ## Tasks -/

/-- What a store is told to do that needs the server. -/
inductive Task where
  /-- Every tool is fetched, and the store keeps what it holds. -/
  | fetch
  /-- Every tool is fetched in place of those held. -/
  | refresh
  /-- The draft is created, unless it has a form that is not valid. -/
  | create (form : Option DraftForm)
  /-- The tool with the draft's id is replaced. -/
  | update
  /-- A tool is removed. -/
  | delete (id : String)

namespace Task

def Answer : Task → Type
  | fetch => List RecipeTool
  | refresh => Unit
  | create _ => Option RecipeTool
  | update => RecipeTool
  | delete _ => RecipeTool

/-- The action that carries out a task, whether or not it succeeds. -/
def action : Task → Action
  | fetch => .fetch
  | refresh => .refresh
  | create form => .create form
  | update => .update
  | delete id => .delete id

/-- The form that comes with a creation. -/
def form : Task → Option DraftForm
  | create form => form
  | _ => none

/-- A creation whose form is not valid is given up. -/
def GivenUp : Task → Prop
  | create (some form) => form.isValid = false
  | _ => False

theorem givenUp_iff {task : Task} :
    task.GivenUp ↔ ∃ form, task = .create (some form) ∧ form.isValid = false := by
  constructor
  · intro h
    cases task with
    | create form =>
      cases form with
      | none => exact h.elim
      | some form => exact ⟨form, rfl, h⟩
    | _ => exact h.elim
  · rintro ⟨form, rfl, h⟩
    exact h

/-- What a store asks the server for. -/
def operation (store : ToolStore) : Task → Operation
  | fetch => listing
  | refresh => listing
  | create _ => .create .tools store.draft.toCreate
  | update => .replace .tools store.draft.id store.draft
  | delete id => .remove .tools id

/-- What is answered for what the server answered. -/
def answer (store : ToolStore) : (task : Task) → (task.operation store).Answer → task.Answer
  | fetch, (page : Page RecipeTool) => page.items
  | refresh, _ => ()
  | create _, (tool : RecipeTool) => some tool
  | update, (tool : RecipeTool) => tool
  | delete _, (tool : RecipeTool) => tool

/-- The store that has taken what the server answered. -/
def taken (store : ToolStore) : (task : Task) → (task.operation store).Answer → ToolStore
  | fetch, _ => { store with loading := false }
  | refresh, (page : Page RecipeTool) => { store with items := page.items, loading := false }
  | create _, (tool : RecipeTool) => (store.add tool).reset
  | update, (tool : RecipeTool) => (store.put tool).reset
  | delete id, _ => (store.drop id).reset

/-- What a task that succeeds may do to a store. -/
def Settled (before after : ToolStore) : Task → Prop
  | fetch => after = { before with loading := false }
  | refresh => ∃ items, after = { before with items, loading := false }
  | _ => after.draft = {} ∧ after.validForm = true ∧ after.loading = false

theorem settled_taken (store : ToolStore) (task : Task) (a : (task.operation store).Answer) :
    task.Settled store (task.taken store a) := by
  cases task with
  | fetch => rfl
  | refresh => exact ⟨_, rfl⟩
  | create form => exact ⟨rfl, rfl, rfl⟩
  | update => exact ⟨rfl, rfl, rfl⟩
  | delete id => exact ⟨rfl, rfl, rfl⟩

end Task

/-- What is left when a task has been carried out. -/
structure Report (α : Type) where
  answer : Except Failure α
  /-- The form that came with the task. -/
  form : Option DraftForm
  store : ToolStore

/-- Carries out a task. -/
def carryOut (store : ToolStore) : (task : Task) → Dialogue (Report task.Answer)
  | .fetch => do
    let (answer, store) ← store.fetch
    return ⟨answer, none, store⟩
  | .refresh => do
    let (answer, store) ← store.refresh
    return ⟨answer, none, store⟩
  | .create form => do
    let (answer, form, store) ← store.create form
    return ⟨answer, form, store⟩
  | .update => do
    let (answer, store) ← store.update
    return ⟨answer, none, store⟩
  | .delete id => do
    let (answer, store) ← store.delete id
    return ⟨answer, none, store⟩

/-- What a task leaves for what the operation answered. -/
def reportOf (store : ToolStore) (task : Task) :
    Except Failure (task.operation store).Answer → Report task.Answer
  | .ok a => ⟨.ok (task.answer store a), task.form.map (·.validate.reset), task.taken store a⟩
  | .error failure => ⟨.error failure, task.form.map (·.validate), { store with loading := false }⟩

section Runs

variable {σ : Type} {line : Line σ} {state : σ} {store : ToolStore}

/-- What follows an operation that ends at once is decided by what is read from the reply. -/
theorem performing_bind {α : Type} {o : Operation} {request : Request} (h : o.request = .ok request)
    {next : Except Failure o.Answer × ToolStore → Dialogue α} {ended : Except Failure o.Answer → α}
    (hnext : ∀ answer, next (answer, { store with loading := false }) = .done (ended answer)) :
    store.performing o >>= next =
      .send request fun reply => .done (ended (reply.reading o.codec request)) := by
  have hperform : o.perform = Dialogue.exchange o.codec request := by
    rw [Operation.perform, h]
    rfl
  rw [performing, hperform]
  exact congrArg (Dialogue.send request) (funext fun reply => hnext _)

/-- A task that is not given up is one request, and a report of what is read from the reply. -/
theorem carryOut_eq (store : ToolStore) {task : Task} (h : ¬ task.GivenUp) : ∃ request,
    (task.operation store).request = .ok request ∧
      store.carryOut task = .send request fun reply =>
        .done (store.reportOf task (reply.reading (task.operation store).codec request)) := by
  cases task with
  | fetch =>
    refine ⟨_, rfl, ?_⟩
    rw [carryOut, fetch, Dialogue.bind_assoc]
    apply performing_bind rfl
    intro answer
    cases answer <;> rfl
  | refresh =>
    refine ⟨_, rfl, ?_⟩
    rw [carryOut, refresh, fetch, Dialogue.bind_assoc, Dialogue.bind_assoc]
    apply performing_bind rfl
    intro answer
    cases answer <;> rfl
  | create form =>
    refine ⟨_, rfl, ?_⟩
    have hcreate : store.create form = store.submit (form.map (·.validate)) := by
      cases form with
      | none => rfl
      | some form => exact create_of_valid (Bool.not_eq_false _ ▸ h)
    rw [carryOut, hcreate, submit, Dialogue.bind_assoc]
    apply performing_bind rfl
    intro answer
    cases answer <;> cases form <;> rfl
  | update =>
    refine ⟨_, rfl, ?_⟩
    rw [carryOut, update, Dialogue.bind_assoc]
    apply performing_bind rfl
    intro answer
    cases answer <;> rfl
  | delete id =>
    refine ⟨_, rfl, ?_⟩
    rw [carryOut, delete, Dialogue.bind_assoc]
    apply performing_bind rfl
    intro answer
    cases answer <;> rfl

/-- A creation that is given up sends nothing, and only marks its form as not valid. -/
theorem carryOut_of_not_valid {form : DraftForm} (h : form.isValid = false) :
    store.carryOut (.create (some form)) =
      .done ⟨.ok none, some form.validate, { store with validForm := false }⟩ := by
  rw [carryOut, create_of_not_valid h]
  rfl

/-! ## Failure and success -/

/-- A task that failed leaves the store and the resets of its form. -/
theorem reportOf_of_error {task : Task} {answer : Except Failure (task.operation store).Answer}
    {failure : Failure} (h : (store.reportOf task answer).answer = .error failure) :
    (store.reportOf task answer).store = { store with loading := false } ∧
      (store.reportOf task answer).form.map (·.resets) = task.form.map (·.resets) ∧
      answer = .error failure := by
  cases answer with
  | ok a => exact absurd h nofun
  | error other =>
    obtain rfl := Except.error.inj h
    refine ⟨rfl, ?_, rfl⟩
    -- a validation is no reset
    exact Option.map_map ..

theorem reportOf_of_ok {task : Task} {answer : Except Failure (task.operation store).Answer}
    {a : task.Answer} (h : (store.reportOf task answer).answer = .ok a) :
    task.Settled store (store.reportOf task answer).store := by
  cases answer with
  | error failure => exact absurd h nofun
  | ok answered => exact Task.settled_taken store task answered

/-- A creation answers with no tool only if it is given up. -/
theorem answer_reportOf_ne_none (form : Option DraftForm)
    (answer : Except Failure (Operation.create .tools store.draft.toCreate).Answer) :
    (store.reportOf (.create form) answer).answer ≠ .ok none := by
  cases answer with
  | error failure => exact nofun
  | ok tool => exact nofun

/-! ## Waiting -/

theorem loading_reportOf {task : Task} (answer : Except Failure (task.operation store).Answer) :
    (store.reportOf task answer).store.loading = false := by
  cases answer with
  | error failure => rfl
  | ok a => cases task <;> rfl

theorem loading_carryOut (task : Task) (h : store.loading = false) :
    ((store.carryOut task).run line state).1.store.loading = false := by
  by_cases hgiven : task.GivenUp
  · obtain ⟨form, rfl, hvalid⟩ := Task.givenUp_iff.mp hgiven
    rw [carryOut_of_not_valid hvalid]
    exact h
  · obtain ⟨request, _, heq⟩ := carryOut_eq store hgiven
    rw [heq]
    exact loading_reportOf _

/-- An action that needs the server is a task of which only the store is kept. -/
theorem act_action (store : ToolStore) (task : Task) :
    store.act task.action = store.carryOut task >>= fun report => pure report.store := by
  cases task <;> simp only [Task.action, act, carryOut, Dialogue.bind_assoc] <;> rfl

theorem action_cases (action : Action) :
    (∃ task : Task, action = task.action) ∨ action = .reset ∨ ∃ draft, action = .edit draft := by
  cases action with
  | fetch => exact Or.inl ⟨.fetch, rfl⟩
  | refresh => exact Or.inl ⟨.refresh, rfl⟩
  | create form => exact Or.inl ⟨.create form, rfl⟩
  | update => exact Or.inl ⟨.update, rfl⟩
  | delete id => exact Or.inl ⟨.delete id, rfl⟩
  | reset => exact Or.inr (Or.inl rfl)
  | edit draft => exact Or.inr (Or.inr ⟨draft, rfl⟩)

theorem loading_act (action : Action) (h : store.loading = false) :
    ((store.act action).run line state).1.loading = false := by
  rcases action_cases action with ⟨task, rfl⟩ | rfl | ⟨draft, rfl⟩
  · rw [act_action, Dialogue.run_bind]
    exact loading_carryOut task h
  · rfl
  · exact h

theorem loading_acts (actions : List Action) (h : store.loading = false) :
    ((store.acts actions).run line state).1.loading = false := by
  induction actions generalizing store state with
  | nil => exact h
  | cons action actions ih =>
    rw [acts, Dialogue.run_bind]
    exact ih (loading_act action h)

/-! ## What a store holds -/

/-- An action leaves the items alone, or is a task that takes what was read from the reply. -/
theorem items_act (store : ToolStore) (action : Action) :
    ((store.act action).run line state).1.items = store.items ∨
      ∃ task : Task, action = task.action ∧
        ∃ e ∈ (store.act action).exchanges line state, ∃ a,
          e.reply.reading (task.operation store).codec e.request = .ok a ∧
          ((store.act action).run line state).1.items = (task.taken store a).items := by
  rcases action_cases action with ⟨task, rfl⟩ | rfl | ⟨draft, rfl⟩
  · rw [act_action]
    by_cases hgiven : task.GivenUp
    · obtain ⟨form, rfl, hvalid⟩ := Task.givenUp_iff.mp hgiven
      rw [carryOut_of_not_valid hvalid]
      exact Or.inl rfl
    · obtain ⟨request, _, heq⟩ := carryOut_eq store hgiven
      rw [heq]
      cases hread : (line.reply request state).1.reading (task.operation store).codec request with
      | error failure =>
        exact Or.inl (congrArg (fun answer => (store.reportOf task answer).store.items) hread)
      | ok a =>
        -- the only exchange is the one that is reported
        refine Or.inr ⟨task, rfl, _, List.mem_singleton_self _, a, hread, ?_⟩
        exact congrArg (fun answer => (store.reportOf task answer).store.items) hread
  · exact Or.inl rfl
  · exact Or.inl rfl

/-- A new store that is filled holds what was read as a page of tools. -/
theorem start_filled : ∃ request, listing.request = .ok request ∧
    start true = .send request fun reply =>
      .done ((reply.reading listing.codec request).map fun (page : Page RecipeTool) =>
        { items := page.items }) := by
  refine ⟨_, rfl, ?_⟩
  rw [start, if_pos rfl, fetch, Dialogue.bind_assoc]
  apply performing_bind rfl
  intro answer
  cases answer <;> rfl

theorem loading_start {filled : Bool} {later : σ}
    (h : (start filled).run line state = (.ok store, later)) : store.loading = false := by
  cases filled with
  | false =>
    obtain rfl := Except.ok.inj (congrArg Prod.fst h)
    rfl
  | true =>
    obtain ⟨request, _, hstart⟩ := start_filled
    rw [hstart] at h
    have hread : ((line.reply request state).1.reading listing.codec request).map
        (fun (page : Page RecipeTool) => ({ items := page.items } : ToolStore)) = .ok store :=
      congrArg Prod.fst h
    cases hpage : (line.reply request state).1.reading listing.codec request with
    | error failure =>
      rw [hpage] at hread
      exact absurd hread nofun
    | ok page =>
      rw [hpage] at hread
      obtain rfl := Except.ok.inj hread
      rfl

end Runs

/-! ## All or nothing -/

/-- A task that fails leaves the store and the form as they were, with the failure of the operation.
A creation with a form that is not valid sends nothing. In all other cases there is one request,
and a task that succeeds leaves a blank draft, or only the fetched items. No store that was opened
is left waiting. -/
theorem all_or_nothing {σ : Type} (line : Line σ) (state : σ) (store : ToolStore) :
    (∀ task : Task,
      let report := ((store.carryOut task).run line state).1
      (∀ failure, report.answer = .error failure →
        report.store = { store with loading := false } ∧
        report.form.map (·.resets) = task.form.map (·.resets) ∧
        ((task.operation store).perform.run line state).1 = .error failure) ∧
      (¬ task.GivenUp →
        (∃ e, (store.carryOut task).exchanges line state = [e]) ∧
        ∀ a, report.answer = .ok a → task.Settled store report.store)) ∧
    (∀ form : Option DraftForm,
      let report := ((store.carryOut (.create form)).run line state).1
      (report.answer = .ok none ↔ (Task.create form).GivenUp) ∧
      (report.answer = .ok none →
        (store.carryOut (.create form)).exchanges line state = [] ∧
        report.store = { store with validForm := false })) ∧
    (∀ filled actions opened later, (start filled).run line state = (.ok opened, later) →
      ((opened.acts actions).run line later).1.loading = false) := by
  refine ⟨?_, ?_, ?_⟩
  · intro task
    by_cases hgiven : task.GivenUp
    · obtain ⟨form, rfl, hvalid⟩ := Task.givenUp_iff.mp hgiven
      rw [carryOut_of_not_valid hvalid]
      exact ⟨nofun, fun h => absurd hgiven h⟩
    · obtain ⟨request, hrequest, heq⟩ := carryOut_eq store hgiven
      rw [heq, Operation.run_perform hrequest]
      exact ⟨fun failure => reportOf_of_error, fun _ => ⟨⟨_, rfl⟩, fun a => reportOf_of_ok⟩⟩
  · intro form
    by_cases hgiven : (Task.create form).GivenUp
    · obtain ⟨draft, hform, hvalid⟩ := Task.givenUp_iff.mp hgiven
      obtain rfl := Task.create.inj hform
      rw [carryOut_of_not_valid hvalid]
      exact ⟨⟨fun _ => hgiven, fun _ => rfl⟩, fun _ => ⟨rfl, rfl⟩⟩
    · obtain ⟨request, _, heq⟩ := carryOut_eq store hgiven
      rw [heq]
      have hne := answer_reportOf_ne_none form
        ((line.reply request state).1.reading (Operation.create .tools store.draft.toCreate).codec
          request)
      exact ⟨⟨fun h => absurd h hne, fun h => absurd h hgiven⟩, fun h => absurd h hne⟩
  · intro filled actions opened later hstart
    exact loading_acts actions (loading_start hstart)

end RecipeClient.ToolStore
