import RecipeClient.Client
import RecipeClient.Disk
import RecipeClient.Text.UpperCase
import RecipeClient.ToolStore

/-!
# The command line

Three commands. `check`, which is also what is done without a command, reads the user's household
and then its numbers, and only the first has to succeed. `tools` prints the names of the tools,
and saves the tools to a file if one is named. `export` prints the address from which a recipe can
be downloaded.

A token in the environment is used as it is. Otherwise a name and a password, if both are there,
are exchanged for one first, and nothing else is done if that fails.
-/

namespace RecipeClient.Cli

/-- What a run leaves behind. -/
structure Outcome where
  /-- Whether the run did what it was asked for. -/
  succeeded : Bool
  /-- What it printed. -/
  output : String := ""
  /-- What it said about its failure. -/
  complaint : Option String := none
  /-- The files. -/
  disk : Disk

/-- The number with which a run ends. -/
def Outcome.exitCode (o : Outcome) : Nat := if o.succeeded then 0 else 1

/-- The text that names the commands. -/
def usage : String := "usage: mealie-client [check | tools [OUTPUT.json] | export RECIPE_SLUG]"

/-! ## Commands -/

/-- What a run is asked for. -/
inductive Command where
  /-- To see whether the user may use the server. -/
  | check
  /-- To print the tools, and to save them to a file if one is named. -/
  | tools (path : Option String)
  /-- To print the address from which a recipe can be downloaded. -/
  | exportRecipe (slug : String)
deriving DecidableEq, Inhabited

/-- The command that arguments stand for. -/
def Command.ofArguments? : List String → Option Command
  | [] => some .check
  | "check" :: _ => some .check
  | "tools" :: rest => some (.tools rest.head?)
  | ["export"] => none
  | "export" :: slug :: _ => some (.exportRecipe slug)
  | _ => none

/-- The lines that show tools: their names, with every word capitalised. -/
def toolLines (tools : List RecipeTool) : String :=
  String.join (tools.map fun tool => Text.titleCase tool.name ++ "\n")

/-- The text of a file that holds tools. -/
def toolFile (tools : List RecipeTool) : String := (RecipeTool.codec.list.write tools).text

/-- Sees whether the user may use the server. -/
def check (disk : Disk) : Dialogue Outcome := do
  match ← Operation.ownHousehold.perform with
  | .error failure => return { succeeded := false, complaint := failure.message, disk }
  | .ok _ =>
    let _ ← Operation.statistics.perform
    return { succeeded := true, disk }

/-- Prints the tools, and saves them to a file if one is named. -/
def tools (path : Option String) (disk : Disk) : Dialogue Outcome := do
  match ← ToolStore.start true with
  | .error failure => return { succeeded := false, complaint := failure.message, disk }
  | .ok store =>
    let output := toolLines store.items
    match path with
    | none => return { succeeded := true, output, disk }
    | some path =>
      match disk.write path (toolFile store.items) with
      | .ok disk => return { succeeded := true, output, disk }
      | .error failure =>
        return { succeeded := false, output, complaint := failure.message, disk }

/-- Prints the address from which a recipe can be downloaded. -/
def exportRecipe (client : Client) (slug : String) (disk : Disk) : Dialogue Outcome := do
  match ← exportLink slug with
  | .error failure => return { succeeded := false, complaint := failure.message, disk }
  | .ok path => return { succeeded := true, output := client.address ++ path ++ "\n", disk }

/-- Does what is asked for. -/
def obey (client : Client) (disk : Disk) : Option Command → Dialogue Outcome
  | none => .done { succeeded := false, complaint := usage, disk }
  | some .check => check disk
  | some (.tools path) => tools path disk
  | some (.exportRecipe slug) => exportRecipe client slug disk

/-! ## Runs -/

/-- Logs in, if there is a name and a password and no token; false if that fails. -/
def enter (config : Config) (client : Client) : Dialogue (Bool × Client) := do
  match config.token, config.credentials with
  | none, some (username, password) =>
    match ← client.login username password with
    | (.ok _, client) => return (true, client)
    | (.error _, client) => return (false, client)
  | _, _ => return (true, client)

/-- A run with a configuration and arguments over files. -/
def run (config : Config) (arguments : List String) (disk : Disk) : Dialogue Outcome := do
  let client ← Client.ofConfig config
  match ← enter config client with
  | (false, _) => return { succeeded := false, disk }
  | (true, client) => obey client disk (Command.ofArguments? arguments)

end RecipeClient.Cli
