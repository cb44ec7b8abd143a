import RecipeClient.Proofs.Dialogues
import RecipeClient.Proofs.ToolServer

/-!
# Stores mirror the server

A store of tools that was filled from the server holds what the server has, whatever is done with
it later, until a reply is lost after the server acted. From then on store and server agree on all
tools but those whose replies were lost, in the same order.

- `Moves`: all that one action can do to the items of a store and to the server
- `Mirrors`: items agree with a server outside the tools that it changed unheard
- `ToolStore.mirrors_of_filled`: a filled store mirrors the server after any actions
-/

namespace RecipeClient

open RecipeTool (outside swapped)

/-! ## Actions -/

namespace ToolStore

/-- What is done with a store. -/
inductive Action where
  /-- Every tool is fetched, and the store keeps what it holds. -/
  | fetch
  /-- Every tool is fetched in place of those held. -/
  | refresh
  /-- The draft is created, unless it has a form that is not valid. -/
  | create (form : Option DraftForm)
  /-- The tool with the draft's id is replaced. -/
  | update
  /-- A tool is removed. -/
  | delete (id : String)
  /-- The draft is made blank. -/
  | reset
  | edit (draft : RecipeTool)

/-- The store after an action, whether or not it succeeds. -/
def act (store : ToolStore) : Action → Dialogue ToolStore
  | .fetch => do
    let (_, store) ← store.fetch
    return store
  | .refresh => do
    let (_, store) ← store.refresh
    return store
  | .create form => do
    let (_, _, store) ← store.create form
    return store
  | .update => do
    let (_, store) ← store.update
    return store
  | .delete id => do
    let (_, store) ← store.delete id
    return store
  | .reset => return store.reset
  | .edit draft => return store.edit draft

/-- The store after actions, one after the other. -/
def acts (store : ToolStore) : List Action → Dialogue ToolStore
  | [] => return store
  | action :: actions => do
    let store ← store.act action
    store.acts actions

/-! ## What an action can do -/

/-- What one action can do to the items of a store and to the server. -/
inductive Moves (items : List RecipeTool) (server : ToolServer) :
    List RecipeTool → ToolServer → Prop where
  /-- The items stay, and the server changes at most what it records. -/
  | apart {later : ToolServer} {touched : List String} (drifts : Drifts server later touched) :
      Moves items server items later
  /-- The items become those of the server. -/
  | filled : Moves items server server.tools server
  | added (tool : RecipeTool) (fresh : tool.id ∉ server.used) :
      Moves items server (items ++ [tool]) (server.add tool fresh)
  | replaced (tool : RecipeTool) (held : ∃ old ∈ server.tools, old.id = tool.id) :
      Moves items server (upsert tool items) (server.put tool)
  | removed (id : String) : Moves items server (items.filter (·.id ≠ id)) (server.drop id)

/-- A call that fails leaves the items. -/
theorem Moves.of_error {items : List RecipeTool} {server later : ToolServer} {request : Request}
    {reply : Reply} {failure : Failure} (h : Exchange RecipeTool.codec request server reply later)
    (hread : reply.reading RecipeTool.codec request = .error failure) :
    Moves items server items later := by
  obtain ⟨touched, hdrifts⟩ := h.drifts ⟨failure, hread⟩
  exact .apart hdrifts

section Actions

variable {σ : Type} {line : Line σ} {view : σ → ToolServer} {store : ToolStore} {state : σ}

/-- An operation has the store as it was, but for the mark that it waits. -/
theorem run_performing {o : Operation} {request : Request} (h : o.request = .ok request) :
    (store.performing o).run line state =
      (((line.reply request state).1.reading o.codec request, { store with loading := false }),
        (line.reply request state).2) := by
  simp only [performing, Operation.perform, Dialogue.attempt, h]
  rfl

theorem moves_fetch (hline : line.Serves view) (store : ToolStore) (state : σ) :
    ∃ answer later, store.fetch.run line state = ((answer, { store with loading := false }), later) ∧
      Drifts (view state) (view later) [] ∧
      ∀ items, answer = .ok items → items = (view state).tools ∧ view later = view state := by
  have hexchange := hline .list rfl state
  simp only [fetch, Dialogue.run_bind, run_performing (o := listing) rfl]
  refine ⟨_, _, rfl, hexchange.drifts_of_get rfl, ?_⟩
  intro items hitems
  -- the items are those of the page, and there is none if the call failed
  cases hread : (line.reply _ state).1.reading _ _ with
  | error failure => exact absurd (hread ▸ hitems) nofun
  | ok page =>
    rw [hread] at hitems
    obtain rfl := Except.ok.inj hitems
    exact hexchange.listed rfl hread

theorem moves_submit (hline : line.Serves view) (form : Option DraftForm) :
    Moves store.items (view state) ((store.submit form).run line state).1.2.2.items
      (view ((store.submit form).run line state).2) := by
  have hexchange := hline (.create store.draft.toCreate) rfl state
  simp only [submit, Dialogue.run_bind,
    run_performing (o := .create .tools store.draft.toCreate) rfl]
  cases hread : (line.reply _ state).1.reading _ _ with
  | error failure => exact .of_error hexchange hread
  | ok tool =>
    obtain ⟨fresh, hlater⟩ := hexchange.added rfl hread
    exact hlater ▸ .added tool fresh

theorem moves_update (hline : line.Serves view) :
    Moves store.items (view state) (store.update.run line state).1.2.items
      (view (store.update.run line state).2) := by
  have hexchange := hline (.replace store.draft.id store.draft) rfl state
  simp only [update, Dialogue.run_bind,
    run_performing (o := .replace .tools store.draft.id store.draft) rfl]
  cases hread : (line.reply _ state).1.reading _ _ with
  | error failure => exact .of_error hexchange hread
  | ok tool =>
    obtain ⟨held, hlater⟩ := hexchange.replaced rfl hread
    exact hlater ▸ .replaced tool held

theorem moves_delete (hline : line.Serves view) (id : String) :
    Moves store.items (view state) ((store.delete id).run line state).1.2.items
      (view ((store.delete id).run line state).2) := by
  have hexchange := hline (.remove id) rfl state
  simp only [delete, Dialogue.run_bind, run_performing (o := .remove .tools id) rfl]
  cases hread : (line.reply _ state).1.reading _ _ with
  | error failure => exact .of_error hexchange hread
  | ok tool =>
    -- the store drops the id that it asked for, not the one that was answered
    have hlater := hexchange.removed rfl rfl hread
    exact hlater ▸ .removed id

/-- A form that is valid lets the draft be submitted. -/
theorem create_of_valid {form : DraftForm} (h : form.isValid = true) :
    store.create (some form) = store.submit (some form.validate) := by
  simp [create, DraftForm.validate, h]

/-- A form that is not valid keeps the request from being made. -/
theorem create_of_not_valid {form : DraftForm} (h : form.isValid = false) :
    store.create (some form) =
      .done (.ok none, some form.validate, { store with validForm := false }) := by
  simp [create, DraftForm.validate, h]

/-- Whatever is done with a store, its items and the server make one of the moves. -/
theorem moves_act (hline : line.Serves view) (action : Action) :
    Moves store.items (view state) ((store.act action).run line state).1.items
      (view ((store.act action).run line state).2) := by
  cases action with
  | fetch =>
    obtain ⟨answer, later, hfetch, hdrifts, _⟩ := moves_fetch hline store state
    simp only [act, Dialogue.run_bind, hfetch]
    exact .apart hdrifts
  | refresh =>
    obtain ⟨answer, later, hfetch, hdrifts, hitems⟩ := moves_fetch hline store state
    simp only [act, refresh, Dialogue.run_bind, hfetch]
    cases answer with
    | error failure => exact .apart hdrifts
    | ok items =>
      obtain ⟨rfl, hlater⟩ := hitems items rfl
      exact hlater ▸ .filled
  | create form =>
    simp only [act, Dialogue.run_bind]
    cases form with
    | none => exact moves_submit hline none
    | some form =>
      cases hvalid : form.isValid with
      | true =>
        rw [create_of_valid hvalid]
        exact moves_submit hline (some form.validate)
      | false =>
        rw [create_of_not_valid hvalid]
        exact .apart (.refl (view state))
  | update =>
    simp only [act, Dialogue.run_bind]
    exact moves_update hline
  | delete id =>
    simp only [act, Dialogue.run_bind]
    exact moves_delete hline id
  | reset => exact .apart (.refl (view state))
  | edit draft => exact .apart (.refl (view state))

end Actions

/-! ## Putting a tool in its place -/

variable {tool : RecipeTool} {tools items : List RecipeTool}

theorem upsert_of_not_mem (h : ∀ held ∈ tools, held.id ≠ tool.id) :
    upsert tool tools = tools ++ [tool] := by
  induction tools with
  | nil => rfl
  | cons held tools ih =>
    rw [upsert, if_neg (h held (List.mem_cons_self ..)),
      ih fun other hother => h other (List.mem_cons_of_mem _ hother)]
    rfl

/-- Only the first tool of an id is replaced, which is the only one. -/
theorem upsert_of_mem (hdistinct : (tools.map (·.id)).Nodup)
    (h : ∃ held ∈ tools, held.id = tool.id) : upsert tool tools = swapped tool tools := by
  induction tools with
  | nil =>
    obtain ⟨held, hheld, _⟩ := h
    exact absurd hheld List.not_mem_nil
  | cons first tools ih =>
    obtain ⟨hnew, hrest⟩ := List.nodup_cons.mp hdistinct
    by_cases hid : first.id = tool.id
    -- behind the replaced tool there is none with its id
    · have hnone : ∀ held ∈ tools, held.id ≠ tool.id :=
        fun held hheld hsame => hnew (List.mem_map.mpr ⟨held, hheld, hsame.trans hid.symm⟩)
      rw [upsert, if_pos hid, swapped, List.map_cons, if_pos hid, ← swapped,
        RecipeTool.swapped_of_not_mem hnone]
    · obtain ⟨held, hheld, hsame⟩ := h
      have hlater := (List.mem_cons.mp hheld).resolve_left fun heq => hid (heq ▸ hsame)
      rw [upsert, if_neg hid, swapped, List.map_cons, if_neg hid, ← swapped,
        ih hrest ⟨held, hlater, hsame⟩]

end ToolStore

/-! ## Mirrors -/

/-- Items have distinct ids that a server used, and agree with its tools, in the same order, outside
some missed ones. -/
structure Mirrors (items : List RecipeTool) (server : ToolServer) (missed : List String) : Prop where
  distinct : (items.map (·.id)).Nodup
  used : ∀ item ∈ items, item.id ∈ server.used
  agree : outside missed items = outside missed server.tools

namespace Mirrors

variable {items : List RecipeTool} {server later : ToolServer} {missed touched : List String}

theorem of_server (server : ToolServer) (missed : List String) :
    Mirrors server.tools server missed :=
  ⟨server.distinct, server.used_of_mem, rfl⟩

/-- What the server changed unheard is missed from then on. -/
theorem drift (h : Mirrors items server missed) (hdrifts : Drifts server later touched) :
    Mirrors items later (missed ++ touched) where
  distinct := h.distinct
  used item hitem := hdrifts.used _ (h.used item hitem)
  agree := by
    -- it does not matter which ids are left out first
    have hcomm (tools : List RecipeTool) :
        outside touched (outside missed tools) = outside missed (outside touched tools) :=
      List.filter_comm ..
    rw [RecipeTool.outside_append_ids, RecipeTool.outside_append_ids, h.agree, hcomm, hcomm,
      hdrifts.tools]

theorem add (h : Mirrors items server missed) (tool : RecipeTool) (fresh : tool.id ∉ server.used) :
    Mirrors (items ++ [tool]) (server.add tool fresh) missed where
  -- a used id is never given again, also if its tool was removed since
  distinct := RecipeTool.distinct_concat h.distinct
    fun item hitem hid => fresh (hid ▸ h.used item hitem)
  used item hitem := by
    rcases List.mem_append.mp hitem with hitem | hnew
    · exact List.mem_append_left _ (h.used item hitem)
    · obtain rfl := List.mem_singleton.mp hnew
      exact List.mem_append_right _ (List.mem_singleton_self _)
  agree := by
    simp only [ToolServer.add, RecipeTool.outside_append, h.agree]

/-- A tool that the server has and the store has not was missed. -/
theorem mem_missed (h : Mirrors items server missed) {tool : RecipeTool}
    (hheld : ∃ held ∈ server.tools, held.id = tool.id) (hnone : ∀ item ∈ items, item.id ≠ tool.id) :
    tool.id ∈ missed := by
  obtain ⟨held, hmem, hid⟩ := hheld
  by_contra hmissed
  -- the tools agree outside the missed ones, so the store would have it
  have houtside : held ∈ outside missed server.tools :=
    RecipeTool.mem_outside.mpr ⟨hmem, hid ▸ hmissed⟩
  rw [← h.agree] at houtside
  exact hnone held (RecipeTool.mem_outside.mp houtside).1 hid

theorem put (h : Mirrors items server missed) {tool : RecipeTool}
    (hheld : ∃ held ∈ server.tools, held.id = tool.id) :
    Mirrors (ToolStore.upsert tool items) (server.put tool) missed := by
  by_cases hitems : ∃ item ∈ items, item.id = tool.id
  -- both sides swap the tool in place
  · rw [ToolStore.upsert_of_mem h.distinct hitems]
    refine ⟨?_, fun item hitem => ?_, ?_⟩
    · rw [RecipeTool.ids_swapped]
      exact h.distinct
    · obtain ⟨old, hold, hsame⟩ := RecipeTool.exists_of_mem_swapped hitem
      exact hsame ▸ h.used old hold
    · rw [ToolServer.put, RecipeTool.outside_swapped, RecipeTool.outside_swapped, h.agree]
  -- the store adds it at the end, which is no harm: it was missed, so its place may differ
  · have hnone : ∀ item ∈ items, item.id ≠ tool.id := fun item hitem hid =>
      hitems ⟨item, hitem, hid⟩
    have hmissed := h.mem_missed hheld hnone
    have hkept : ∀ held ∈ outside missed server.tools, held.id ≠ tool.id :=
      fun held hheld hid => (RecipeTool.mem_outside.mp hheld).2 (hid ▸ hmissed)
    rw [ToolStore.upsert_of_not_mem hnone]
    refine ⟨RecipeTool.distinct_concat h.distinct hnone, fun item hitem => ?_, ?_⟩
    · rcases List.mem_append.mp hitem with hitem | hnew
      · exact h.used item hitem
      · obtain rfl := List.mem_singleton.mp hnew
        obtain ⟨held, hmem, hid⟩ := hheld
        exact hid ▸ server.used_of_mem held hmem
    · rw [ToolServer.put, RecipeTool.outside_swapped, RecipeTool.swapped_of_not_mem hkept,
        RecipeTool.outside_append, RecipeTool.outside_singleton hmissed, List.append_nil, h.agree]

theorem drop (h : Mirrors items server missed) (id : String) :
    Mirrors (items.filter (·.id ≠ id)) (server.drop id) missed where
  distinct := h.distinct.sublist (List.filter_sublist.map _)
  used item hitem := h.used item (List.mem_filter.mp hitem).1
  agree := by
    rw [ToolServer.drop, RecipeTool.outside_filter, RecipeTool.outside_filter, h.agree]

end Mirrors

/-- Items mirror a server but for the tools that it changed unheard since its record was another
one. -/
def MirrorsSince (record : List String) (items : List RecipeTool) (server : ToolServer) : Prop :=
  ∃ missed, server.unheard = record ++ missed ∧ Mirrors items server missed

namespace ToolStore

variable {record : List String} {items more : List RecipeTool} {server later : ToolServer}

theorem Moves.mirrorsSince (hmoves : Moves items server more later)
    (h : MirrorsSince record items server) : MirrorsSince record more later := by
  obtain ⟨missed, hrecord, hmirrors⟩ := h
  cases hmoves with
  -- only what the server does unheard adds to the missed tools
  | @apart _ touched drifts =>
    refine ⟨missed ++ touched, ?_, hmirrors.drift drifts⟩
    rw [drifts.unheard, hrecord, List.append_assoc]
  -- the missed tools stay missed although the store has them again
  | filled => exact ⟨missed, hrecord, .of_server server missed⟩
  | added tool fresh => exact ⟨missed, hrecord, hmirrors.add tool fresh⟩
  | replaced tool held => exact ⟨missed, hrecord, hmirrors.put held⟩
  | removed id => exact ⟨missed, hrecord, hmirrors.drop id⟩

variable {σ : Type} {line : Line σ} {view : σ → ToolServer}

theorem mirrorsSince_acts (hline : line.Serves view) (actions : List Action) {store : ToolStore}
    {state : σ} (h : MirrorsSince record store.items (view state)) :
    MirrorsSince record ((store.acts actions).run line state).1.items
      (view ((store.acts actions).run line state).2) := by
  -- each action makes a move from wherever the ones before it led
  induction actions generalizing store state with
  | nil => exact h
  | cons action actions ih =>
    rw [acts, Dialogue.run_bind]
    exact ih ((moves_act hline action).mirrorsSince h)

/-- A store that was just filled with the tools of the server: a new one, or one that was
refreshed. -/
inductive Filled (line : Line σ) (before : σ) : ToolStore → σ → Prop where
  | started {store : ToolStore} {state : σ}
      (ok : (start true).run line before = (.ok store, state)) : Filled line before store state
  | refreshed {old store : ToolStore} {state : σ}
      (ok : old.refresh.run line before = ((.ok (), store), state)) :
      Filled line before store state

theorem Filled.items_eq (hline : line.Serves view) {before state : σ} {store : ToolStore}
    (h : Filled line before store state) : store.items = (view state).tools := by
  cases h with
  | started ok =>
    obtain ⟨answer, later, hfetch, _, hitems⟩ := moves_fetch hline {} before
    simp only [start, if_true, Dialogue.run_bind, hfetch] at ok
    cases answer with
    | error failure => exact absurd (congrArg Prod.fst ok) nofun
    | ok items =>
      obtain ⟨rfl, hlater⟩ := hitems items rfl
      obtain ⟨hstore, rfl⟩ := Prod.mk.inj ok
      obtain rfl := Except.ok.inj hstore
      exact congrArg ToolServer.tools hlater.symm
  | @refreshed old _ _ ok =>
    obtain ⟨answer, later, hfetch, _, hitems⟩ := moves_fetch hline old before
    simp only [refresh, Dialogue.run_bind, hfetch] at ok
    cases answer with
    | error failure => exact absurd (congrArg (fun r => r.1.1) ok) nofun
    | ok items =>
      obtain ⟨rfl, hlater⟩ := hitems items rfl
      obtain ⟨hstore, rfl⟩ := Prod.mk.inj ok
      obtain rfl := (Prod.mk.inj hstore).2
      exact congrArg ToolServer.tools hlater.symm

/-- A store that was filled holds distinct ids after any actions, and agrees with the server, in the
same order, outside the tools that the server changed unheard since then. If there are none, its
items are the tools of the server. -/
theorem mirrors_of_filled (hline : line.Serves view) {before state : σ} {store : ToolStore}
    (hfilled : Filled line before store state) (actions : List Action) {after : ToolStore} {later : σ}
    (hacts : (store.acts actions).run line state = (after, later)) :
    ∃ missed, (view later).unheard = (view state).unheard ++ missed ∧
      (missed = [] → after.items = (view later).tools) ∧
      (after.items.map (·.id)).Nodup ∧
      outside missed after.items = outside missed (view later).tools := by
  -- nothing is missed yet when the store is filled
  have hstart : MirrorsSince (view state).unheard store.items (view state) :=
    ⟨[], (List.append_nil _).symm, hfilled.items_eq hline ▸ .of_server (view state) []⟩
  have hend := mirrorsSince_acts hline actions hstart
  rw [hacts] at hend
  obtain ⟨missed, hrecord, hmirrors⟩ := hend
  refine ⟨missed, hrecord, ?_, hmirrors.distinct, hmirrors.agree⟩
  rintro rfl
  have hagree := hmirrors.agree
  rwa [RecipeTool.outside_nil, RecipeTool.outside_nil] at hagree

end ToolStore

/-! ## A server that was not heard -/

namespace Unlucky

/-- A tool of the server. -/
def whisk : RecipeTool := { id := "t1", name := "Whisk", slug := "whisk" }

/-- The tool under its later name. -/
def balloon : RecipeTool := { whisk with name := "Balloon Whisk" }

/-- A tool that is created. -/
def oven : RecipeTool := { id := "t2", name := "Oven", slug := "oven" }

/-- The server with one tool. -/
def server : ToolServer := ⟨[whisk], ["t1"], [], by simp, by simp [whisk]⟩

/-- The server after so many exchanges. -/
def view : Nat → ToolServer
  | 0 => server
  | 1 => server
  | 2 => server.add oven (by decide)
  | 3 => ((server.add oven (by decide)).put balloon).missing ["t1"]
  | _ => (((server.add oven (by decide)).put balloon).missing ["t1"]).drop "t2"

/-- A line on which the tools are listed, one is created, the answer to a replacement is lost, and
one is removed. All other requests fail. -/
def line : Line Nat where
  reply request stage :=
    match stage, request.method, request.path with
    | 0, .get, "/api/organizers/tools?page=1&perPage=-1" =>
      (.answer .okay ("\x7b\"page\":1,\"per_page\":-1,\"total\":1,\"items\":[" ++
        "\x7b\"id\":\"t1\",\"name\":\"Whisk\",\"slug\":\"whisk\"\x7d]\x7d"), 1)
    | 1, .post, "/api/organizers/tools" =>
      (.answer .okay "\x7b\"id\":\"t2\",\"name\":\"Oven\",\"slug\":\"oven\"\x7d", 2)
    | 2, .put, "/api/organizers/tools/t1" => (.lost "connection reset", 3)
    | 3, .delete, "/api/organizers/tools/t2" =>
      (.answer .okay "\x7b\"id\":\"t2\",\"name\":\"Oven\",\"slug\":\"oven\"\x7d", 4)
    | stage, _, _ => (.lost "connection refused", stage)
  bear _ stage := stage

theorem serves : line.Serves view := by
  intro o request hasks hrequest state
  simp only [line]
  -- one case for each stage of the line, and one for all requests that it refuses
  split
  case h_1 hmethod hpath =>
    cases hasks with
    | list => exact .heard (.list hmethod hpath) ⟨_, rfl, rfl⟩
    | _ =>
      obtain rfl := Except.ok.inj hrequest
      exact absurd hmethod nofun
  case h_2 hmethod hpath =>
    cases hasks with
    | create => exact .heard (.create hmethod hpath oven (by decide)) rfl
    | _ =>
      obtain rfl := Except.ok.inj hrequest
      exact absurd hmethod nofun
  case h_3 hmethod hpath =>
    have hheld : ∃ old ∈ (view 2).tools, old.id = balloon.id :=
      ⟨whisk, List.mem_cons_self .., rfl⟩
    exact .lost (.replace hmethod balloon hpath hheld) ⟨_, rfl⟩
  case h_4 hmethod hpath =>
    cases hasks with
    | remove =>
      have hheld : oven ∈ (view 3).tools := List.mem_cons_of_mem _ (List.mem_cons_self ..)
      exact .heard (.remove hmethod oven hpath hheld) rfl
    | _ =>
      obtain rfl := Except.ok.inj hrequest
      exact absurd hmethod nofun
  case h_5 => exact .failed ⟨_, rfl⟩

end Unlucky

open Unlucky in
/-- The answer to the replacement is lost, so the store holds the tool under its old name, and
agrees with the server on the rest: the created tool came and went. -/
theorem ToolStore.mirrors_of_filled_unlucky :
    let actions : List Action :=
      [.edit { name := "Oven" }, .create none, .edit balloon, .update, .delete "t2"]
    ∃ store after, line.Serves view ∧ Filled line 0 store 1 ∧
      (store.acts actions).run line 1 = (after, 4) ∧
      (∃ missed, (view 4).unheard = (view 1).unheard ++ missed ∧
        (missed = [] → after.items = (view 4).tools) ∧ (after.items.map (·.id)).Nodup ∧
        outside missed after.items = outside missed (view 4).tools) ∧
      after.items = [whisk] ∧ (view 4).tools = [balloon] := by
  intro actions
  have hfilled : Filled line 0 { items := [whisk] } 1 := .started rfl
  have hacts : (ToolStore.acts { items := [whisk] } actions).run line 1 =
      ({ items := [whisk], validForm := true }, 4) := rfl
  exact ⟨_, _, serves, hfilled, hacts, mirrors_of_filled serves hfilled actions hacts, rfl, rfl⟩

end RecipeClient
