import Mathlib.Data.List.Nodup
import RecipeClient.ToolStore

/-!
# A server of tools

The server that a store talks to keeps an ordered list of tools with distinct ids. It acts on the
requests of the store, but a request may fail before it acts, and its answer may be lost after it
acted. A server keeps a record of the tools that it changed without being heard.

- `Effect`: what a server makes of a request
- `Exchange`: what a request and the reply to it do to a server
- `Line.Serves`: there is a server of tools behind a line
- `Drifts`: what a server does unheard leaves all but the recorded tools alone
-/

namespace RecipeClient

/-! ## Lists of tools -/

namespace RecipeTool

variable {ids : List String} {tool : RecipeTool} {tools : List RecipeTool}

/-- The tools whose ids are not in a list. -/
def outside (ids : List String) (tools : List RecipeTool) : List RecipeTool :=
  tools.filter (·.id ∉ ids)

/-- The tools with one in place of each that has its id. -/
def swapped (tool : RecipeTool) (tools : List RecipeTool) : List RecipeTool :=
  tools.map fun held => if held.id = tool.id then tool else held

@[simp]
theorem outside_nil (tools : List RecipeTool) : outside [] tools = tools := by
  simp [outside]

theorem mem_outside {held : RecipeTool} :
    held ∈ outside ids tools ↔ held ∈ tools ∧ held.id ∉ ids := by
  simp [outside]

@[simp]
theorem outside_append (tools more : List RecipeTool) :
    outside ids (tools ++ more) = outside ids tools ++ outside ids more :=
  List.filter_append ..

theorem outside_append_ids (ids more : List String) (tools : List RecipeTool) :
    outside (ids ++ more) tools = outside more (outside ids tools) := by
  simp [outside, List.filter_filter, Bool.and_comm]

theorem outside_singleton (h : tool.id ∈ ids) : outside ids [tool] = [] := by
  simp [outside, h]

theorem outside_filter (p : RecipeTool → Bool) (tools : List RecipeTool) :
    outside ids (tools.filter p) = (outside ids tools).filter p := by
  simp [outside, List.filter_filter, Bool.and_comm]

theorem distinct_concat (h : (tools.map (·.id)).Nodup) (hnew : ∀ held ∈ tools, held.id ≠ tool.id) :
    ((tools ++ [tool]).map (·.id)).Nodup := by
  rw [List.map_append, List.map_singleton, ← List.concat_eq_append]
  apply List.Nodup.concat _ h
  intro hmem
  obtain ⟨held, hheld, hid⟩ := List.mem_map.mp hmem
  exact hnew held hheld hid

@[simp]
theorem ids_swapped (tool : RecipeTool) (tools : List RecipeTool) :
    (swapped tool tools).map (·.id) = tools.map (·.id) := by
  rw [swapped, List.map_map]
  apply List.map_congr_left
  intro held _
  by_cases h : held.id = tool.id <;> simp [h]

theorem exists_of_mem_swapped {held : RecipeTool} (h : held ∈ swapped tool tools) :
    ∃ old ∈ tools, old.id = held.id := by
  have hid := List.mem_map_of_mem (f := RecipeTool.id) h
  rw [ids_swapped] at hid
  exact List.mem_map.mp hid

theorem swapped_of_not_mem (h : ∀ held ∈ tools, held.id ≠ tool.id) : swapped tool tools = tools := by
  have hself : ∀ held ∈ tools, (if held.id = tool.id then tool else held) = held :=
    fun held hheld => if_neg (h held hheld)
  rw [swapped, List.map_congr_left hself, List.map_id']

/-- A tool keeps its id when it is swapped, so it does not matter which comes first. -/
theorem outside_swapped (tool : RecipeTool) (tools : List RecipeTool) :
    outside ids (swapped tool tools) = swapped tool (outside ids tools) := by
  induction tools with
  | nil => rfl
  | cons held tools ih =>
    simp only [outside, swapped, List.map_cons] at ih ⊢
    -- the head is kept or left out on both sides, and swapped or not on both
    by_cases hid : held.id = tool.id <;> by_cases hmem : held.id ∈ ids <;> grind

end RecipeTool

open RecipeTool (outside swapped)

/-! ## Servers -/

/-- The tools that a server keeps, and what it did so far. -/
structure ToolServer where
  /-- The tools, in order. -/
  tools : List RecipeTool
  /-- The ids that tools had so far. -/
  used : List String
  /-- The ids of the tools that it changed without being heard, in order. -/
  unheard : List String
  /-- No two tools have one id. -/
  distinct : (tools.map (·.id)).Nodup
  /-- The ids of the tools are used. -/
  used_of_mem : ∀ tool ∈ tools, tool.id ∈ used

namespace ToolServer

/-- The server with a tool of a new id at the end. -/
def add (server : ToolServer) (tool : RecipeTool) (fresh : tool.id ∉ server.used) : ToolServer where
  tools := server.tools ++ [tool]
  used := server.used ++ [tool.id]
  unheard := server.unheard
  distinct := RecipeTool.distinct_concat server.distinct
    fun held hheld hid => fresh (hid ▸ server.used_of_mem held hheld)
  used_of_mem held hheld := by
    rcases List.mem_append.mp hheld with hheld | hnew
    · exact List.mem_append_left _ (server.used_of_mem held hheld)
    · obtain rfl := List.mem_singleton.mp hnew
      exact List.mem_append_right _ (List.mem_singleton_self _)

/-- The server with a tool in place of the one with its id. -/
def put (server : ToolServer) (tool : RecipeTool) : ToolServer where
  tools := swapped tool server.tools
  used := server.used
  unheard := server.unheard
  distinct := by
    rw [RecipeTool.ids_swapped]
    exact server.distinct
  used_of_mem held hheld := by
    obtain ⟨old, hold, hsame⟩ := RecipeTool.exists_of_mem_swapped hheld
    exact hsame ▸ server.used_of_mem old hold

/-- The server without the tool of an id. -/
def drop (server : ToolServer) (id : String) : ToolServer where
  tools := server.tools.filter (·.id ≠ id)
  used := server.used
  unheard := server.unheard
  distinct := server.distinct.sublist (List.filter_sublist.map _)
  used_of_mem held hheld := server.used_of_mem held (List.mem_filter.mp hheld).1

/-- The server with more ids of tools that it changed without being heard. -/
def missing (server : ToolServer) (ids : List String) : ToolServer :=
  { server with unheard := server.unheard ++ ids }

end ToolServer

/-! ## Requests -/

/-- What a server makes of a request. -/
inductive Effect (server : ToolServer) where
  /-- It answers all tools. -/
  | listed
  /-- It answers that it has no such tool. -/
  | absent
  /-- It adds a tool and answers it. -/
  | added (tool : RecipeTool) (fresh : tool.id ∉ server.used)
  /-- It puts a tool in place of the one with its id, and answers it. -/
  | replaced (tool : RecipeTool)
  /-- It removes a tool and answers it. -/
  | removed (tool : RecipeTool)

namespace Effect

variable {server : ToolServer}

/-- The server after it acted. -/
def after : Effect server → ToolServer
  | listed => server
  | absent => server
  | added tool fresh => server.add tool fresh
  | replaced tool => server.put tool
  | removed tool => server.drop tool.id

/-- The ids of the tools that it changes. -/
def touched : Effect server → List String
  | listed => []
  | absent => []
  | added tool _ => [tool.id]
  | replaced tool => [tool.id]
  | removed tool => [tool.id]

/-- The reply to a request tells what the server made of it. -/
def Told (request : Request) (reply : Reply) : Effect server → Prop
  | listed => ∃ page : Page RecipeTool,
      reply.reading (Page.codec RecipeTool.codec) request = .ok page ∧ page.items = server.tools
  | absent => ∃ body, reply = .answer .notFound body
  | added tool _ => reply.reading RecipeTool.codec request = .ok tool
  | replaced tool => reply.reading RecipeTool.codec request = .ok tool
  | removed tool => reply.reading RecipeTool.codec request = .ok tool

end Effect

/-- How a server acts on a request. Which name and which households a tool has that it adds or puts
in place is up to the server. -/
inductive Performs (server : ToolServer) (request : Request) : Effect server → Prop where
  | list (method : request.method = .get)
      (path : request.path = "/api/organizers/tools?page=1&perPage=-1") :
      Performs server request .listed
  | create (method : request.method = .post) (path : request.path = "/api/organizers/tools")
      (tool : RecipeTool) (fresh : tool.id ∉ server.used) :
      Performs server request (.added tool fresh)
  | replace (method : request.method = .put) (tool : RecipeTool)
      (path : request.path = "/api/organizers/tools/" ++ tool.id)
      (held : ∃ old ∈ server.tools, old.id = tool.id) :
      Performs server request (.replaced tool)
  | remove (method : request.method = .delete) (tool : RecipeTool)
      (path : request.path = "/api/organizers/tools/" ++ tool.id) (held : tool ∈ server.tools) :
      Performs server request (.removed tool)
  | none (method : request.method = .put ∨ request.method = .delete) (id : String)
      (path : request.path = "/api/organizers/tools/" ++ id)
      (unheld : ∀ tool ∈ server.tools, tool.id ≠ id) :
      Performs server request .absent

/-- The reply to a request is not what a codec reads: nothing arrived, or no success, or a body
that cannot be read. -/
def Reply.Unread {α : Type} (codec : Json.Codec α) (request : Request) (reply : Reply) : Prop :=
  ∃ failure, reply.reading codec request = .error failure

/-- What becomes of a server when a request is replied to, and the reply is read by a codec. -/
inductive Exchange {α : Type} (codec : Json.Codec α) (request : Request) (server : ToolServer)
    (reply : Reply) : ToolServer → Prop where
  /-- The call failed before the server acted. -/
  | failed (unread : reply.Unread codec request) : Exchange codec request server reply server
  /-- The server acted and was heard. -/
  | heard {effect : Effect server} (performs : Performs server request effect)
      (told : effect.Told request reply) : Exchange codec request server reply effect.after
  /-- The server acted, but the reply was lost. -/
  | lost {effect : Effect server} (performs : Performs server request effect)
      (unread : reply.Unread codec request) :
      Exchange codec request server reply (effect.after.missing effect.touched)

/-! ## Unheard changes -/

/-- A server changed no tools but those that it recorded meanwhile. -/
structure Drifts (server later : ToolServer) (touched : List String) : Prop where
  unheard : later.unheard = server.unheard ++ touched
  used : ∀ id ∈ server.used, id ∈ later.used
  tools : outside touched later.tools = outside touched server.tools

theorem Drifts.refl (server : ToolServer) : Drifts server server [] where
  unheard := (List.append_nil _).symm
  used _ hid := hid
  tools := rfl

theorem Effect.drifts {server : ToolServer} (effect : Effect server) :
    Drifts server (effect.after.missing effect.touched) effect.touched := by
  cases effect with
  | listed => exact ⟨rfl, fun _ hid => hid, rfl⟩
  | absent => exact ⟨rfl, fun _ hid => hid, rfl⟩
  | added tool fresh =>
    refine ⟨rfl, fun _ hid => List.mem_append_left _ hid, ?_⟩
    -- the new tool is the only one that the server gained, and it is recorded
    have hnew : outside [tool.id] [tool] = [] :=
      RecipeTool.outside_singleton (List.mem_singleton_self _)
    simp only [touched, after, ToolServer.missing, ToolServer.add, RecipeTool.outside_append, hnew,
      List.append_nil]
  | replaced tool =>
    refine ⟨rfl, fun _ hid => hid, ?_⟩
    -- no tool outside the recorded one has its id, so none is swapped there
    have hnone : ∀ held ∈ outside [tool.id] server.tools, held.id ≠ tool.id :=
      fun held hheld hid => (RecipeTool.mem_outside.mp hheld).2 (hid ▸ List.mem_singleton_self _)
    simp only [touched, after, ToolServer.missing, ToolServer.put, RecipeTool.outside_swapped,
      RecipeTool.swapped_of_not_mem hnone]
  | removed tool =>
    refine ⟨rfl, fun _ hid => hid, ?_⟩
    -- nor is any left out there that was not removed
    have hall : ∀ held ∈ outside [tool.id] server.tools, decide (held.id ≠ tool.id) = true :=
      fun held hheld => decide_eq_true
        fun hid => (RecipeTool.mem_outside.mp hheld).2 (hid ▸ List.mem_singleton_self _)
    simp only [touched, after, ToolServer.missing, ToolServer.drop, RecipeTool.outside_filter,
      List.filter_eq_self.mpr hall]

theorem Performs.eq_listed {server : ToolServer} {request : Request} {effect : Effect server}
    (h : Performs server request effect) (method : request.method = .get) : effect = .listed := by
  -- every other effect is that of another method
  cases h with
  | list => rfl
  | none other => rcases other with other | other <;> exact absurd (method.symm.trans other) nofun
  | _ other => exact absurd (method.symm.trans other) nofun

namespace Exchange

variable {α : Type} {codec : Json.Codec α}
variable {request : Request} {server later : ToolServer} {reply : Reply} {tool : RecipeTool}

/-- What is read was told by a server that acted. -/
theorem heard_of_reading {a : α} (h : Exchange codec request server reply later)
    (read : reply.reading codec request = .ok a) :
    ∃ effect : Effect server,
      Performs server request effect ∧ effect.Told request reply ∧ later = effect.after := by
  -- of a call that failed or was lost, no codec reads the reply
  cases h with
  | failed unread =>
    obtain ⟨failure, hfailure⟩ := unread
    exact absurd (hfailure.symm.trans read) nofun
  | heard performs told => exact ⟨_, performs, told, rfl⟩
  | lost _ unread =>
    obtain ⟨failure, hfailure⟩ := unread
    exact absurd (hfailure.symm.trans read) nofun

/-- A request that reads changes no tools. -/
theorem drifts_of_get (h : Exchange codec request server reply later)
    (method : request.method = .get) : Drifts server later [] := by
  cases h with
  | failed => exact .refl server
  | heard performs =>
    obtain rfl := performs.eq_listed method
    exact .refl server
  | lost performs =>
    obtain rfl := performs.eq_listed method
    exact Effect.listed.drifts

/-- The tools on a page that is read are those of the server. -/
theorem listed {page : Page RecipeTool}
    (h : Exchange (Page.codec RecipeTool.codec) request server reply later)
    (method : request.method = .get)
    (read : reply.reading (Page.codec RecipeTool.codec) request = .ok page) :
    page.items = server.tools ∧ later = server := by
  obtain ⟨effect, performs, told, rfl⟩ := h.heard_of_reading read
  obtain rfl := performs.eq_listed method
  obtain ⟨answered, hanswered, hitems⟩ := told
  obtain rfl : answered = page := Except.ok.inj (hanswered.symm.trans read)
  exact ⟨hitems, rfl⟩

/-- A call that fails leaves all but the recorded tools alone, whether or not the server acted. -/
theorem drifts (h : Exchange RecipeTool.codec request server reply later)
    (unread : reply.Unread RecipeTool.codec request) : ∃ touched, Drifts server later touched := by
  cases h with
  | failed => exact ⟨[], .refl server⟩
  | @heard effect performs told =>
    obtain ⟨failure, hfailure⟩ := unread
    -- a server that was heard changed nothing, or it answered a tool that can be read
    cases effect with
    | listed => exact ⟨[], .refl server⟩
    | absent => exact ⟨[], .refl server⟩
    | added => exact absurd (hfailure.symm.trans told) nofun
    | replaced => exact absurd (hfailure.symm.trans told) nofun
    | removed => exact absurd (hfailure.symm.trans told) nofun
  | @lost effect _ _ => exact ⟨effect.touched, effect.drifts⟩

theorem added (h : Exchange RecipeTool.codec request server reply later)
    (method : request.method = .post) (read : reply.reading RecipeTool.codec request = .ok tool) :
    ∃ fresh, later = server.add tool fresh := by
  obtain ⟨effect, performs, told, rfl⟩ := h.heard_of_reading read
  cases performs with
  | create _ _ made fresh =>
    obtain rfl : made = tool := Except.ok.inj (told.symm.trans read)
    exact ⟨fresh, rfl⟩
  | none other => rcases other with other | other <;> exact absurd (method.symm.trans other) nofun
  | _ other => exact absurd (method.symm.trans other) nofun

theorem replaced (h : Exchange RecipeTool.codec request server reply later)
    (method : request.method = .put) (read : reply.reading RecipeTool.codec request = .ok tool) :
    (∃ held ∈ server.tools, held.id = tool.id) ∧ later = server.put tool := by
  obtain ⟨effect, performs, told, rfl⟩ := h.heard_of_reading read
  cases performs with
  | replace _ made _ held =>
    obtain rfl : made = tool := Except.ok.inj (told.symm.trans read)
    exact ⟨held, rfl⟩
  -- a reply that says there is no such tool is not read as one
  | none =>
    obtain ⟨body, rfl⟩ := told
    exact absurd read nofun
  | _ other => exact absurd (method.symm.trans other) nofun

theorem removed {id : String} (h : Exchange RecipeTool.codec request server reply later)
    (method : request.method = .delete) (path : request.path = Path.tool id)
    (read : reply.reading RecipeTool.codec request = .ok tool) : later = server.drop id := by
  obtain ⟨effect, performs, told, rfl⟩ := h.heard_of_reading read
  cases performs with
  | remove _ gone asked _ =>
    -- the path ends in the id, whatever characters it has
    obtain rfl : gone.id = id := (String.append_right_inj _).mp (asked.symm.trans path)
    rfl
  | none =>
    obtain ⟨body, rfl⟩ := told
    exact absurd read nofun
  | _ other => exact absurd (method.symm.trans other) nofun

end Exchange

/-- What a store of tools asks the server to do. -/
inductive ToolStore.Asks : Operation → Prop where
  | list : Asks listing
  | create (draft : RecipeToolCreate) : Asks (.create .tools draft)
  | replace (id : String) (tool : RecipeTool) : Asks (.replace .tools id tool)
  | remove (id : String) : Asks (.remove .tools id)

/-- There is a server of tools behind a line, and nothing but the requests over the line changes
it: whatever a store asks, the request and the reply to it are an exchange with the server. -/
def Line.Serves {σ : Type} (line : Line σ) (view : σ → ToolServer) : Prop :=
  ∀ {o : Operation} {request : Request}, ToolStore.Asks o → o.request = .ok request → ∀ state,
    Exchange o.codec request (view state) (line.reply request state).1
      (view (line.reply request state).2)

end RecipeClient
