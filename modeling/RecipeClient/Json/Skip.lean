import RecipeClient.Json.Scan

/-!
# Values that are passed over

The value of a member that a record does not know is checked for its form only: its numbers may
be out of range, its strings may hold unpaired code units, and it may be nested to any depth.
What follows a comma is always the next value or key, so a comma before the end is met as a value
or key that is not there.
-/

namespace RecipeClient.Json

/-- Passes over a number. -/
def skipNumber (cs : List Char) : Except Problem (List Char) :=
  match literal false cs with
  | .ok (_, rest) => .ok rest
  | .error _ => .error (.malformed .invalidNumber)

/-- Passes over a string after its opening quote. -/
def skipString : List Char → Except Problem (List Char)
  | [] => .error (.unfinished .string)
  | '"' :: cs => .ok cs
  | '\\' :: 'u' :: a :: b :: c :: d :: cs =>
    match codeUnit? a b c d with
    | none => .error (badUnit (a :: b :: c :: d :: cs))
    | some _ => skipString cs
  | '\\' :: 'u' :: cs => .error (badUnit cs)
  | ['\\'] => .error (.unfinished .string)
  | '\\' :: e :: cs =>
    match escapedChar? e with
    | some _ => skipString cs
    | none => .error (.malformed .invalidEscape)
  | c :: cs =>
    if c < ' ' then .error (.malformed .controlCharacter) else skipString cs

/-- Passes over a key and its colon. -/
def skipKey (cs : List Char) : Except Problem (List Char) :=
  match skipSpace cs with
  | [] => .error (.unfinished .object)
  | '"' :: rest => do
    let rest ← skipString rest
    colon rest
  | _ :: _ => .error (.malformed .keyNotString)

/-- Passes over the items of a list that has begun, the next of which has been passed over; there
are at most `fuel` of them. -/
def skipItems (skip : List Char → Except Problem (List Char)) :
    (fuel : Nat) → List Char → Except Problem (List Char)
  | 0, _ => .error (.unfinished .list)
  | fuel + 1, cs =>
    match skipSpace cs with
    | [] => .error (.unfinished .list)
    | ']' :: rest => .ok rest
    | ',' :: rest => do
      let rest ← skip rest
      skipItems skip fuel rest
    | _ :: _ => .error (.malformed .expectedCommaOrBracket)

/-- Passes over the members of an object that has begun, the next of which has been passed over;
there are at most `fuel` of them. -/
def skipMembers (skip : List Char → Except Problem (List Char)) :
    (fuel : Nat) → List Char → Except Problem (List Char)
  | 0, _ => .error (.unfinished .object)
  | fuel + 1, cs =>
    match skipSpace cs with
    | [] => .error (.unfinished .object)
    | '\x7d' :: rest => .ok rest
    | ',' :: rest => do
      let rest ← skipKey rest
      let rest ← skip rest
      skipMembers skip fuel rest
    | _ :: _ => .error (.malformed .expectedCommaOrBrace)

/-- Passes over a value with at most `fuel` containers within one another. -/
def skipNested : (fuel : Nat) → List Char → Except Problem (List Char)
  | 0, _ => .error (.unfinished .value)
  | fuel + 1, cs =>
    match skipSpace cs with
    | [] => .error (.unfinished .value)
    | 'n' :: rest => word "ull".toList rest
    | 't' :: rest => word "rue".toList rest
    | 'f' :: rest => word "alse".toList rest
    | '-' :: rest => skipNumber rest
    | '"' :: rest => skipString rest
    | '[' :: rest =>
      match skipSpace rest with
      | [] => .error (.unfinished .list)
      | ']' :: rest => .ok rest
      | item => do
        let rest ← skipNested fuel item
        skipItems (skipNested fuel) rest.length rest
    | '\x7b' :: rest =>
      match skipSpace rest with
      | [] => .error (.unfinished .object)
      | '\x7d' :: rest => .ok rest
      | key => do
        let rest ← skipKey key
        let rest ← skipNested fuel rest
        skipMembers (skipNested fuel) rest.length rest
    | c :: rest =>
      if c.isDigit then skipNumber (c :: rest) else .error (.malformed .expectedValue)

/-- Passes over a value. No text nests deeper than it is long. -/
def skipValue (cs : List Char) : Except Problem (List Char) := skipNested (cs.length + 1) cs

end RecipeClient.Json
