import RecipeClient.Json.Skip

/-!
# Readers

A reader is told how many more containers may be opened within one another, and then reads from
the front of a text. Scalars, lists and whole values are read here; records are read in
`RecipeClient.Json.Record`.
-/

namespace RecipeClient.Json

/-- Reads a value from the front of a text, with a bound on the nesting of containers. -/
abbrev Reader (α : Type) := (depth : Nat) → Step α

/-- How many containers may stand within one another. -/
def nestingLimit : Nat := 127

def Reader.whole {α : Type} (reader : Reader α) (text : String) : Except Problem α := do
  let (a, rest) ← reader nestingLimit text.toList
  finish rest
  return a

/-! ## Lists -/

/-- Reads the elements of a list after its opening bracket, at most `fuel` of them; `first` tells
that none has been read. -/
def elements {α : Type} (element : Step α) : (fuel : Nat) → (first : Bool) → Step (List α)
  | 0, _, _ => .error (.unfinished .list)
  | fuel + 1, first, cs => do
    match ← nextElement first cs with
    | (false, cs) => return ([], cs)
    | (true, cs) =>
      let (a, cs) ← element cs
      let (as, cs) ← elements element fuel false cs
      return (a :: as, cs)

/-- Reads the members of an object after its opening brace, at most `fuel` of them, in the order
of the text; `first` tells that none has been read. -/
def membersOf {α : Type} (element : Step α) :
    (fuel : Nat) → (first : Bool) → Step (List (String × α))
  | 0, _, _ => .error (.unfinished .object)
  | fuel + 1, first, cs => do
    match ← nextKey first cs with
    | (none, cs) => return ([], cs)
    | (some key, cs) =>
      let cs ← colon cs
      let (a, cs) ← element cs
      let (rest, cs) ← membersOf element fuel false cs
      return ((key, a) :: rest, cs)

/-! ## Values -/

/-- Reads any value, members in the order of the text and repeated keys included. -/
def Value.read : Reader Value
  | depth, cs =>
    match skipSpace cs with
    | [] => .error (.unfinished .value)
    | 'n' :: rest => return (.null, ← word "ull".toList rest)
    | 't' :: rest => return (.boolean true, ← word "rue".toList rest)
    | 'f' :: rest => return (.boolean false, ← word "alse".toList rest)
    | '-' :: rest => do
      let (n, rest) ← scanNumber true rest
      return (.number n, rest)
    | '"' :: rest => do
      let (s, rest) ← scanString rest
      return (.string s, rest)
    | '[' :: rest =>
      match depth with
      | 0 => .error (.malformed .tooDeep)
      | depth + 1 => do
        let (items, rest) ← elements (Value.read depth) (rest.length + 1) true rest
        return (.array items, rest)
    | '\x7b' :: rest =>
      match depth with
      | 0 => .error (.malformed .tooDeep)
      | depth + 1 => do
        let (members, rest) ← membersOf (Value.read depth) (rest.length + 1) true rest
        return (.object members, rest)
    | c :: rest =>
      if c.isDigit then do
        let (n, rest) ← scanNumber false (c :: rest)
        return (.number n, rest)
      else .error (.malformed .expectedValue)

/-- Reads a text as any value, in canonical form. -/
def Value.ofText (text : String) : Except Problem Value :=
  (Reader.whole Value.read text).map Value.canonical

/-! ## Scalars -/

def readString (expected : String) : Reader String := fun _ cs =>
  match skipSpace cs with
  | [] => .error (.unfinished .value)
  | '"' :: rest => scanString rest
  | rest => .error (mismatch expected rest)

/-- Reads a truth value. -/
def readBoolean : Reader Bool := fun _ cs =>
  match skipSpace cs with
  | [] => .error (.unfinished .value)
  | 't' :: rest => return (true, ← word "rue".toList rest)
  | 'f' :: rest => return (false, ← word "alse".toList rest)
  | rest => .error (mismatch "a boolean" rest)

def readNumber (expected : String) : Reader Number := fun _ cs =>
  match skipSpace cs with
  | [] => .error (.unfinished .value)
  | '-' :: rest => scanNumber true rest
  | c :: rest =>
    if c.isDigit then scanNumber false (c :: rest) else .error (mismatch expected (c :: rest))

/-- Reads `null`, or else what the reader reads. -/
def readOptional {α : Type} (reader : Reader α) : Reader (Option α) := fun depth cs =>
  match skipSpace cs with
  | 'n' :: rest => return (none, ← word "ull".toList rest)
  | rest => do
    let (a, rest) ← reader depth rest
    return (some a, rest)

def readList {α : Type} (reader : Reader α) : Reader (List α) := fun depth cs =>
  match skipSpace cs with
  | [] => .error (.unfinished .value)
  | '[' :: rest =>
    match depth with
    | 0 => .error (.malformed .tooDeep)
    | depth + 1 => elements (reader depth) (rest.length + 1) true rest
  | rest => .error (mismatch "a sequence" rest)

/-- Reads the value `null`. -/
def readUnit : Step Unit := fun cs =>
  match skipSpace cs with
  | [] => .error (.unfinished .value)
  | 'n' :: rest => return ((), ← word "ull".toList rest)
  | rest => .error (mismatch "unit" rest)

/-- Reads one of the named values, given by its name or by an object whose only member has the
name and holds `null`. -/
def readNamed {α : Type} (named : List (String × α)) : Reader α := fun depth cs =>
  match skipSpace cs with
  | [] => .error (.unfinished .value)
  | '"' :: rest => do
    let (name, rest) ← scanString rest
    return (← find name, rest)
  | '\x7b' :: rest =>
    match depth with
    | 0 => .error (.malformed .tooDeep)
    | _ + 1 => do
      match ← nextKey true rest with
      | (none, _) => .error (.malformed .expectedValue)
      | (some name, rest) =>
        let a ← find name
        let rest ← colon rest
        let ((), rest) ← readUnit rest
        match skipSpace rest with
        | [] => .error (.unfinished .object)
        | '\x7d' :: rest => return (a, rest)
        | _ :: _ => .error (.malformed .expectedValue)
  | _ :: _ => .error (.malformed .expectedValue)
where
  /-- The value with a name. -/
  find (name : String) : Except Problem α :=
    match named.lookup name with
    | some a => .ok a
    | none => .error (.unknownName name (named.map (·.1)))

end RecipeClient.Json
