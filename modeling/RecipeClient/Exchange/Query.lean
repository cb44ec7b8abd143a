import RecipeClient.Json.Text
import RecipeClient.Text.Percent

/-!
# Queries

The parameters of a request are a JSON object, or `null` for none. They become a list of pairs of
a key and a text, one for each scalar inside the object:

* `null` contributes nothing;
* a list repeats its key once for each item;
* a nested object contributes pairs under its own keys.

Objects are visited in the order of their sorted keys, so that equal parameters always give the
same query. `Query.append` writes pairs behind a path, and `Query.overlay` lays the members of one
object over those of another.
-/

namespace RecipeClient

open Json (Entries Value)

/-- Parameters that are neither an object nor `null`. -/
structure BadParameters where
  /-- What was given. -/
  got : Value

namespace BadParameters

/-- The text that reports bad parameters. -/
def message (p : BadParameters) : String :=
  "Query parameters must serialize to an object, got " ++ p.got.text

end BadParameters

/-- The pairs of a query, in order. -/
abbrev Query := List (String × String)

namespace Query

/-! ## From parameters to pairs -/

mutual

/-- The pairs that a value contributes under a key. -/
def leaves (key : String) : Value → Query
  | .null => []
  | .boolean b => [(key, if b then "true" else "false")]
  | .number n => [(key, n.text)]
  | .string s => [(key, s)]
  | .array items => leavesOfItems key items
  | .object members => leavesOfMembers members

/-- The pairs that the items of a list contribute under the key of the list. -/
def leavesOfItems (key : String) : List Value → Query
  | [] => []
  | item :: items => leaves key item ++ leavesOfItems key items

/-- The pairs that the members of an object contribute, each under its own key. -/
def leavesOfMembers : List (String × Value) → Query
  | [] => []
  | (key, value) :: members => leaves key value ++ leavesOfMembers members

end

/-- The members of an object, none of `null`. -/
def membersOf : Value → Except BadParameters Entries
  | .null => .ok []
  | .object members => .ok members
  | v => .error ⟨v⟩

/-- The pairs of parameters. -/
def ofParameters (parameters : Value) : Except BadParameters Query :=
  (membersOf parameters.canonical).map leavesOfMembers

/-- One object with the members of another laid over it; `null` counts as an empty object. -/
def overlay (base extra : Value) : Except BadParameters Value := do
  let below ← membersOf base.canonical
  let above ← membersOf extra.canonical
  return .object (below.overlay above)

/-! ## From pairs to text -/

/-- A pair with both texts percent-encoded and `=` between them. -/
def pairText (pair : String × String) : List Char :=
  Text.Percent.encode pair.1.toList ++ '=' :: Text.Percent.encode pair.2.toList

/-- The pairs with `&` between them. -/
def text : Query → List Char
  | [] => []
  | [pair] => pairText pair
  | pair :: query => pairText pair ++ '&' :: text query

/-- What stands between a path and the first pair behind it: `&` if the path has a query already,
`?` otherwise. -/
def separator (path : String) : Char := if path.toList.contains '?' then '&' else '?'

/-- A path with pairs behind it; no pairs leave the path as it is. -/
def append (path : String) (query : Query) : String :=
  if query.isEmpty then path
  else path ++ String.ofList (separator path :: text query)

/-- A path with the pairs of parameters behind it. -/
def withParameters (path : String) (parameters : Value) : Except BadParameters String :=
  (ofParameters parameters).map (append path)

end Query

end RecipeClient
