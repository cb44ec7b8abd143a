import RecipeClient.Api.Operation

/-!
# The store of tools

A store holds the tools that were fetched, and a draft: the tool that the user is editing. It
creates, replaces and removes tools on the server, and then does the same to the tools it holds:

* a created tool is added at the end;
* a replaced tool takes the place of the held tool with the id that the server answered, or is
  added at the end if there is none;
* a removed tool is dropped by the id that was asked for.

After each of these the draft is blank again. A failed operation leaves tools and draft alone.
-/

namespace RecipeClient

/-! ## Forms of the user -/

/-- The form in which the user edits the draft, with a count of what was done to it. -/
structure DraftForm where
  /-- Whether what the form holds is valid. -/
  isValid : Bool
  /-- How many times it was validated. -/
  validated : Nat := 0
  /-- How many times it was reset. -/
  resets : Nat := 0
deriving DecidableEq, Inhabited

namespace DraftForm

/-- The form after one more validation. -/
def validate (form : DraftForm) : DraftForm := { form with validated := form.validated + 1 }

/-- The form after one more reset. -/
def reset (form : DraftForm) : DraftForm := { form with resets := form.resets + 1 }

end DraftForm

/-! ## Stores -/

/-- The tools that were fetched, and the tool that is being edited. -/
structure ToolStore where
  /-- The tools that were fetched. -/
  items : List RecipeTool := []
  /-- The tool that is being edited. -/
  draft : RecipeTool := {}
  /-- Whether an answer of the server is awaited. -/
  loading : Bool := false
  /-- Whether the form of the draft was last found valid. -/
  validForm : Bool := false
deriving Inhabited

namespace ToolStore

/-- The store with a blank draft. -/
def reset (store : ToolStore) : ToolStore :=
  { store with draft := {}, loading := false, validForm := true }

/-- The store with another draft. -/
def edit (draft : RecipeTool) (store : ToolStore) : ToolStore := { store with draft }

/-- The store with a tool added at the end. -/
def add (tool : RecipeTool) (store : ToolStore) : ToolStore :=
  { store with items := store.items ++ [tool] }

/-- The tools with the first one of an id replaced, or the new one added at the end. -/
def upsert (tool : RecipeTool) : List RecipeTool → List RecipeTool
  | [] => [tool]
  | held :: rest => if held.id = tool.id then tool :: rest else held :: upsert tool rest

/-- The store with a tool in place of the one with its id. -/
def put (tool : RecipeTool) (store : ToolStore) : ToolStore :=
  { store with items := upsert tool store.items }

/-- The store without the tools of an id. -/
def drop (id : String) (store : ToolStore) : ToolStore :=
  { store with items := store.items.filter (·.id ≠ id) }

/-! ## Operations -/

/-- Has the server do something; the store is loading meanwhile. -/
def performing (o : Operation) (store : ToolStore) :
    Dialogue (Except Failure o.Answer × ToolStore) := do
  let waiting := { store with loading := true }
  let answer ← o.perform
  return (answer, { waiting with loading := false })

/-- The operation that lists every tool. -/
def listing : Operation := .list (.collection .tools) 1 (-1) .null

/-- Fetches every tool; the store keeps what it holds. -/
def fetch (store : ToolStore) : Dialogue (Except Failure (List RecipeTool) × ToolStore) := do
  let (answer, store) ← store.performing listing
  return (answer.map fun (page : Page RecipeTool) => page.items, store)

/-- Fetches every tool in place of those held. -/
def refresh (store : ToolStore) : Dialogue (Except Failure Unit × ToolStore) := do
  match ← store.fetch with
  | (.ok items, store) => return (.ok (), { store with items })
  | (.error failure, store) => return (.error failure, store)

/-- A new store, with every tool in it if it is filled at once. -/
def start (filled : Bool) : Dialogue (Except Failure ToolStore) := do
  let store : ToolStore := {}
  if filled then
    match ← store.fetch with
    | (.ok items, store) => return .ok { store with items }
    | (.error failure, _) => return .error failure
  else return .ok store

/-- Creates the draft on the server. -/
def submit (form : Option DraftForm) (store : ToolStore) :
    Dialogue (Except Failure (Option RecipeTool) × Option DraftForm × ToolStore) := do
  match ← store.performing (.create .tools store.draft.toCreate) with
  | (.ok tool, store) => return (.ok (some tool), form.map (·.reset), (store.add tool).reset)
  | (.error failure, store) => return (.error failure, form, store)

/-- Creates the draft on the server, unless it has a form that is not valid. -/
def create (form : Option DraftForm) (store : ToolStore) :
    Dialogue (Except Failure (Option RecipeTool) × Option DraftForm × ToolStore) :=
  match form.map (·.validate) with
  | none => store.submit none
  | some checked =>
    if checked.isValid then store.submit (some checked)
    else .done (.ok none, some checked, { store with validForm := false })

/-- Replaces the tool with the draft's id by the draft on the server. -/
def update (store : ToolStore) : Dialogue (Except Failure RecipeTool × ToolStore) := do
  match ← store.performing (.replace .tools store.draft.id store.draft) with
  | (.ok (tool : RecipeTool), store) => return (.ok tool, (store.put tool).reset)
  | (.error failure, store) => return (.error failure, store)

/-- Removes a tool on the server. -/
def delete (id : String) (store : ToolStore) :
    Dialogue (Except Failure RecipeTool × ToolStore) := do
  match ← store.performing (.remove .tools id) with
  | (.ok (tool : RecipeTool), store) => return (.ok tool, (store.drop id).reset)
  | (.error failure, store) => return (.error failure, store)

end ToolStore

end RecipeClient
