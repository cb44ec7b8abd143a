import RecipeClient.Proofs.Json.Tokens
import RecipeClient.Proofs.StoreTasks

/-!
# Ids stay distinct in a store

No two tools of a store have one id, as long as the server lists tools with distinct ids and creates
tools under ids that the store does not hold. Nothing is asked of what it answers to a replacement
or a removal: a replaced tool is put in by the id that was answered, and a removed one is dropped by
the id that was asked for.

- `ToolStore.Changes`: all that an action with fair replies can do to the items of a store
- `ToolStore.distinct_of_fair`: the items of a store have distinct ids after any such actions
-/

namespace RecipeClient.ToolStore

open Json (map_eq_ok)

/-! ## Putting a tool in its place -/

section Putting

variable {tool : RecipeTool} {tools : List RecipeTool}

/-- The first tool of the id is replaced, or the tool is added at the end if there is none. -/
theorem upsert_cases (tool : RecipeTool) (tools : List RecipeTool) :
    (∃ front old behind, tools = front ++ old :: behind ∧ old.id = tool.id ∧
      upsert tool tools = front ++ tool :: behind) ∨
    ((∀ held ∈ tools, held.id ≠ tool.id) ∧ upsert tool tools = tools ++ [tool]) := by
  induction tools with
  | nil => exact Or.inr ⟨nofun, rfl⟩
  | cons held tools ih =>
    by_cases hid : held.id = tool.id
    · exact Or.inl ⟨[], held, tools, rfl, hid, if_pos hid⟩
    · rw [upsert, if_neg hid]
      rcases ih with ⟨front, old, behind, rfl, hold, hput⟩ | ⟨hnone, hput⟩
      · exact Or.inl ⟨held :: front, old, behind, rfl, hold, congrArg (held :: ·) hput⟩
      · exact Or.inr ⟨List.forall_mem_cons.mpr ⟨hid, hnone⟩, congrArg (held :: ·) hput⟩

theorem mem_upsert (tool : RecipeTool) (tools : List RecipeTool) : tool ∈ upsert tool tools := by
  rcases upsert_cases tool tools with ⟨front, old, behind, -, -, hput⟩ | ⟨-, hput⟩ <;>
    simp [hput]

theorem eq_or_mem_of_mem_upsert {held : RecipeTool} (h : held ∈ upsert tool tools) :
    held = tool ∨ held ∈ tools := by
  rcases upsert_cases tool tools with ⟨front, old, behind, rfl, -, hput⟩ | ⟨-, hput⟩
  · rw [hput] at h
    simp only [List.mem_append, List.mem_cons] at h ⊢
    tauto
  · rw [hput] at h
    simpa [or_comm] using h

theorem distinct_upsert (h : (tools.map (·.id)).Nodup) (tool : RecipeTool) :
    ((upsert tool tools).map (·.id)).Nodup := by
  rcases upsert_cases tool tools with ⟨front, old, behind, rfl, hid, hput⟩ | ⟨hnone, hput⟩
  · -- the tool has the id of the one that it replaces
    rw [hput, List.map_append, List.map_cons, ← hid]
    rwa [List.map_append, List.map_cons] at h
  · rw [hput]
    exact RecipeTool.distinct_concat h hnone

/-- Where ids are distinct, a tool is the only one with its id. -/
theorem filter_id_of_distinct (h : (tools.map (·.id)).Nodup) (hmem : tool ∈ tools) :
    tools.filter (·.id = tool.id) = [tool] := by
  induction tools with
  | nil => exact absurd hmem List.not_mem_nil
  | cons first tools ih =>
    obtain ⟨hnew, hrest⟩ := List.nodup_cons.mp h
    have hother : ∀ held ∈ tools, held.id ≠ first.id := fun held hheld hid =>
      hnew (List.mem_map.mpr ⟨held, hheld, hid⟩)
    rcases List.mem_cons.mp hmem with rfl | hmem
    · have hnone : tools.filter (·.id = tool.id) = [] := by simpa using hother
      rw [List.filter_cons_of_pos (by simp), hnone]
    · rw [List.filter_cons_of_neg (by simpa using (hother tool hmem).symm), ih hrest hmem]

end Putting

/-! ## Fair replies -/

/-- What a server of tools keeps to: the tools that it lists have distinct ids, and a tool that it
creates has an id that the store does not hold. It may answer any tool to the rest. -/
def Task.Fair (store : ToolStore) : (task : Task) → (task.operation store).Answer → Prop
  | fetch, (page : Page RecipeTool) => (page.items.map (·.id)).Nodup
  | refresh, (page : Page RecipeTool) => (page.items.map (·.id)).Nodup
  | create _, (tool : RecipeTool) => ∀ held ∈ store.items, held.id ≠ tool.id
  | update, _ => True
  | delete _, _ => True

section Runs

variable {σ : Type} {line : Line σ} {state : σ} {store : ToolStore}

/-- All that is read from the replies to a task is fair. -/
def Task.FairOver (store : ToolStore) (task : Task) (exchanges : List (Exchanged σ)) : Prop :=
  ∀ e ∈ exchanges, ∀ a, e.reply.reading (task.operation store).codec e.request = .ok a →
    task.Fair store a

/-- The replies to actions, one after the other, are fair; requests may fail at any point. -/
def FairActs (line : Line σ) : ToolStore → σ → List Action → Prop
  | _, _, [] => True
  | store, state, action :: actions =>
    (∀ task : Task, action = task.action →
      task.FairOver store ((store.act action).exchanges line state)) ∧
    ∀ after later, (store.act action).run line state = (after, later) →
      FairActs line after later actions

/-! ## What an action can do -/

/-- What an action with fair replies can do to the items of a store. -/
inductive Changes (items : List RecipeTool) : List RecipeTool → Prop where
  | kept : Changes items items
  | listed {tools : List RecipeTool} (distinct : (tools.map (·.id)).Nodup) : Changes items tools
  | added {tool : RecipeTool} (fresh : ∀ held ∈ items, held.id ≠ tool.id) :
      Changes items (items ++ [tool])
  | put (tool : RecipeTool) : Changes items (upsert tool items)
  | dropped (id : String) : Changes items (items.filter (·.id ≠ id))

theorem Changes.distinct {items later : List RecipeTool} (hchanges : Changes items later)
    (h : (items.map (·.id)).Nodup) : (later.map (·.id)).Nodup := by
  cases hchanges with
  | kept => exact h
  | listed distinct => exact distinct
  | added fresh => exact RecipeTool.distinct_concat h fresh
  | put tool => exact distinct_upsert h tool
  | dropped id => exact h.sublist (List.filter_sublist.map _)

theorem changes_taken {task : Task} {a : (task.operation store).Answer} (h : task.Fair store a) :
    Changes store.items (task.taken store a).items := by
  cases task with
  | fetch => exact .kept
  | refresh => exact .listed h
  | create form => exact .added h
  | update => exact .put a
  | delete id => exact .dropped id

theorem changes_act {action : Action} (h : ∀ task : Task, action = task.action →
      task.FairOver store ((store.act action).exchanges line state)) :
    Changes store.items ((store.act action).run line state).1.items := by
  rcases store.items_act action with hsame | ⟨task, rfl, e, he, a, hread, htaken⟩
  · rw [hsame]
    exact .kept
  · rw [htaken]
    exact changes_taken (h task rfl e he a hread)

theorem distinct_acts (actions : List Action) (h : (store.items.map (·.id)).Nodup)
    (hfair : FairActs line store state actions) :
    (((store.acts actions).run line state).1.items.map (·.id)).Nodup := by
  induction actions generalizing store state with
  | nil => exact h
  | cons action actions ih =>
    rw [acts, Dialogue.run_bind]
    exact ih ((changes_act hfair.1).distinct h) (hfair.2 _ _ rfl)

theorem distinct_start {filled : Bool} {later : σ}
    (h : (start filled).run line state = (.ok store, later))
    (hfair : Task.fetch.FairOver {} ((start filled).exchanges line state)) :
    (store.items.map (·.id)).Nodup := by
  cases filled with
  | false =>
    obtain rfl := Except.ok.inj (congrArg Prod.fst h)
    exact List.nodup_nil
  | true =>
    obtain ⟨request, _, hstart⟩ := start_filled
    rw [hstart] at h hfair
    obtain ⟨page, hpage, rfl⟩ := map_eq_ok.mp (congrArg Prod.fst h)
    exact hfair _ (List.mem_singleton_self _) page hpage

/-- A task that succeeds has taken what the server answered. -/
theorem carryOut_of_ok {task : Task} (hgiven : ¬ task.GivenUp) {a : task.Answer}
    (h : ((store.carryOut task).run line state).1.answer = .ok a) :
    ∃ answered, ((task.operation store).perform.run line state).1 = .ok answered ∧
      a = task.answer store answered ∧
      ((store.carryOut task).run line state).1.store = task.taken store answered := by
  obtain ⟨request, hrequest, heq⟩ := carryOut_eq store hgiven
  rw [heq] at h ⊢
  rw [Operation.run_perform hrequest]
  simp only [Dialogue.run] at h ⊢
  cases hread : (line.reply request state).1.reading (task.operation store).codec request with
  | error failure =>
    rw [hread] at h
    exact nomatch h
  | ok answered =>
    rw [hread] at h
    exact ⟨answered, rfl, (Except.ok.inj h).symm, rfl⟩

end Runs

/-! ## Stores with distinct ids -/

/-- After any actions with fair replies the items have distinct ids. A replacement that then
succeeds puts the answered tool in place of one item, or behind all, and leaves it as the only one
with its id; a removal that succeeds drops the items of the id that was asked for. -/
theorem distinct_of_fair {σ : Type} {line : Line σ} {filled : Bool} {before state later : σ}
    {opened store : ToolStore} {actions : List Action}
    (hstart : (start filled).run line before = (.ok opened, state))
    (hopened : Task.fetch.FairOver {} ((start filled).exchanges line before))
    (hfair : FairActs line opened state actions)
    (hacts : (opened.acts actions).run line state = (store, later)) :
    (store.items.map (·.id)).Nodup ∧
    (let report := ((store.carryOut .update).run line later).1
      ∀ tool : RecipeTool, report.answer = .ok tool →
        ((Task.update.operation store).perform.run line later).1 = .ok tool ∧
        ((∃ front old behind, store.items = front ++ old :: behind ∧ old.id = tool.id ∧
            report.store.items = front ++ tool :: behind) ∨
          report.store.items = store.items ++ [tool]) ∧
        report.store.items.filter (·.id = tool.id) = [tool]) ∧
    (∀ removed : String,
      let report := ((store.carryOut (.delete removed)).run line later).1
      ∀ tool : RecipeTool, report.answer = .ok tool →
        report.store.items = store.items.filter (·.id ≠ removed)) := by
  have hdistinct : (store.items.map (·.id)).Nodup := by
    have hrun := distinct_acts actions (distinct_start hstart hopened) hfair
    rwa [hacts] at hrun
  refine ⟨hdistinct, ?_, ?_⟩
  · intro report tool htool
    have hgiven : ¬ Task.update.GivenUp := not_false
    obtain ⟨answered, hanswered, rfl, htaken⟩ := carryOut_of_ok hgiven htool
    have hitems : report.store.items = upsert tool store.items := congrArg items htaken
    rw [hitems]
    refine ⟨hanswered, ?_, filter_id_of_distinct (distinct_upsert hdistinct tool) (mem_upsert ..)⟩
    exact (upsert_cases tool store.items).imp_right And.right
  · intro removed report tool htool
    have hgiven : ¬ (Task.delete removed).GivenUp := not_false
    obtain ⟨answered, -, -, htaken⟩ := carryOut_of_ok hgiven htool
    exact congrArg items htaken

/-! ## A server with ids of its own mind -/

namespace Wayward

def whisk : RecipeTool := { id := "t1", name := "Whisk" }

def oven : RecipeTool := { id := "t2", name := "Oven" }

def pan : RecipeTool := { id := "t2", name := "Pan" }

/-- A line on which one tool is listed and another one created. The replacement of the first is
answered with the id of the second, and the removal of the first with an id that there never was. -/
def line : Line Nat where
  reply _ stage :=
    match stage with
    | 0 => (.answer .okay ("\x7b\"page\":1,\"per_page\":-1,\"total\":1,\"items\":[" ++
        "\x7b\"id\":\"t1\",\"name\":\"Whisk\"\x7d]\x7d"), 1)
    | 1 => (.answer .okay "\x7b\"id\":\"t2\",\"name\":\"Oven\"\x7d", 2)
    | 2 => (.answer .okay "\x7b\"id\":\"t2\",\"name\":\"Pan\"\x7d", 3)
    | _ => (.answer .okay "\x7b\"id\":\"t9\",\"name\":\"Spoon\"\x7d", 4)
  bear _ stage := stage

def actions : List Action := [.create none, .edit whisk, .update, .delete "t1"]

end Wayward

open Wayward in
/-- The replacement takes the place of the other tool, and the removal drops the first. -/
theorem distinct_of_fair_wayward :
    (start true).run line 0 = (.ok { items := [whisk] }, 1) ∧
      Task.fetch.FairOver {} ((start true).exchanges line 0) ∧
      FairActs line { items := [whisk] } 1 actions ∧
      (acts { items := [whisk] } actions).run line 1 =
        ({ items := [pan], validForm := true }, 4) ∧
      ([pan].map (·.id)).Nodup := by
  have hstart : (start true).run line 0 = (.ok { items := [whisk] }, 1) := rfl
  have hopened : Task.fetch.FairOver {} ((start true).exchanges line 0) := by
    intro e he page hpage
    obtain rfl := List.mem_singleton.mp he
    obtain rfl := Except.ok.inj hpage
    exact List.nodup_singleton _
  have hfair : FairActs line { items := [whisk] } 1 actions := by
    refine ⟨?_, fun created later hcreated => ⟨?_, fun edited later hedited => ⟨?_, ?_⟩⟩⟩
    · intro task htask
      cases task <;> cases htask
      intro e he tool htool
      obtain rfl := List.mem_singleton.mp he
      obtain rfl := Except.ok.inj htool
      show ∀ held ∈ [whisk], held.id ≠ oven.id
      decide
    · intro task htask
      cases task <;> cases htask
    · intro task htask
      cases task <;> cases htask
      exact fun _ _ _ _ => trivial
    · intro updated later hupdated
      refine ⟨?_, fun _ _ _ => trivial⟩
      intro task htask
      cases task <;> cases htask
      exact fun _ _ _ _ => trivial
  have hcreate : (act { items := [whisk] } (.create none)).run line 1 =
      ({ items := [whisk, oven], validForm := true }, 2) := rfl
  have hupdate : (act { items := [whisk, oven], draft := whisk, validForm := true } .update).run
      line 2 = ({ items := [whisk, pan], validForm := true }, 3) := rfl
  have hdelete : (act { items := [whisk, pan], validForm := true } (.delete "t1")).run line 3 =
      ({ items := [pan], validForm := true }, 4) := rfl
  have hacts : (acts { items := [whisk] } actions).run line 1 =
      ({ items := [pan], validForm := true }, 4) := by
    rw [actions, acts, Dialogue.run_bind, hcreate, acts, Dialogue.run_bind]
    show (acts { items := [whisk, oven], draft := whisk, validForm := true }
      [.update, .delete "t1"]).run line 2 = _
    rw [acts, Dialogue.run_bind, hupdate, acts, Dialogue.run_bind, hdelete]
    rfl
  exact ⟨hstart, hopened, hfair, hacts, (distinct_of_fair hstart hopened hfair hacts).1⟩

end RecipeClient.ToolStore
