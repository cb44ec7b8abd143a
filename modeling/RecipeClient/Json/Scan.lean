import RecipeClient.Json.Problem
import RecipeClient.Number.Scaled
import RecipeClient.Text.Percent

/-!
# Tokens of a JSON text

Each step takes the characters that are left and gives what it read with the characters after it,
or the first problem it meets. Steps that take the elements of a list or the members of an object
are told whether one has been taken before, since that decides what a comma means.
-/

namespace RecipeClient.Json

/-- Reads something from the front of a text and leaves the rest. -/
abbrev Step (α : Type) := List Char → Except Problem (α × List Char)

/-- Whether a character may stand between tokens. -/
def isSpace (c : Char) : Bool := c == ' ' || c == '\t' || c == '\n' || c == '\r'

/-- A text without the space in front of its next token. -/
def skipSpace (cs : List Char) : List Char := cs.dropWhile isSpace

/-- Reads the characters of a word that are left after its first one. -/
def word : List Char → List Char → Except Problem (List Char)
  | [], cs => .ok cs
  | _ :: _, [] => .error (.unfinished .value)
  | w :: ws, c :: cs => if c = w then word ws cs else .error (.malformed .unknownWord)

/-! ## Numbers -/

/-- A number as it is written. -/
structure Literal where
  /-- Whether it starts with a minus. -/
  negative : Bool
  /-- The digits before the point. -/
  whole : List Char
  /-- The digits after the point, if there is one. -/
  fraction : Option (List Char)
  /-- The exponent, if there is one. -/
  exponent : Option Int
deriving DecidableEq, Inhabited

/-- Reads the digits at the front of a text. -/
def digits (cs : List Char) : List Char × List Char :=
  (cs.takeWhile Char.isDigit, cs.dropWhile Char.isDigit)

/-- The number that a run of digits is. -/
def digitsValue (ds : List Char) : Nat :=
  ds.foldl (fun n d => 10 * n + (d.toNat - '0'.toNat)) 0

/-- Reads the digits before the point: a zero alone, or digits of which the first is no zero. -/
def wholePart : Step (List Char)
  | [] => .error (.unfinished .value)
  | '0' :: cs =>
    match cs with
    | d :: _ => if d.isDigit then .error (.malformed .invalidNumber) else .ok (['0'], cs)
    | [] => .ok (['0'], [])
  | c :: cs =>
    if c.isDigit then .ok (digits (c :: cs)) else .error (.malformed .invalidNumber)

/-- Reads at least one digit. -/
def someDigits (cs : List Char) : Except Problem (List Char × List Char) :=
  match digits cs with
  | ([], []) => .error (.unfinished .value)
  | ([], _ :: _) => .error (.malformed .invalidNumber)
  | (d :: ds, rest) => .ok (d :: ds, rest)

/-- Reads the point and the digits after it, if there is a point. -/
def fractionPart : Step (Option (List Char))
  | '.' :: cs => do
    let (ds, rest) ← someDigits cs
    return (some ds, rest)
  | cs => .ok (none, cs)

/-- Reads the sign and the digits of an exponent. -/
def signedExponent : Step Int
  | '+' :: cs => do
    let (ds, rest) ← someDigits cs
    return ((digitsValue ds : Int), rest)
  | '-' :: cs => do
    let (ds, rest) ← someDigits cs
    return (-(digitsValue ds : Int), rest)
  | cs => do
    let (ds, rest) ← someDigits cs
    return ((digitsValue ds : Int), rest)

/-- Reads an exponent, if there is one. -/
def exponentPart : Step (Option Int)
  | 'e' :: cs => do
    let (e, rest) ← signedExponent cs
    return (some e, rest)
  | 'E' :: cs => do
    let (e, rest) ← signedExponent cs
    return (some e, rest)
  | cs => .ok (none, cs)

/-- Reads a number after its minus, if it has one. -/
def literal (negative : Bool) (cs : List Char) : Except Problem (Literal × List Char) := do
  let (whole, cs) ← wholePart cs
  let (fraction, cs) ← fractionPart cs
  let (exponent, cs) ← exponentPart cs
  return (⟨negative, whole, fraction, exponent⟩, cs)

/-- The double that a written number is read as, if it is in range. -/
def Literal.double? (l : Literal) : Option Double :=
  let (significand, left) := Double.gather 0 l.whole
  let fraction := l.fraction.getD []
  let (significand, dropped) := Double.gather significand fraction
  let shift : Int := (left : Int) - ((fraction.length : Int) - (dropped : Int))
  Double.ofScaled? l.negative significand (shift + l.exponent.getD 0)

/-- The integer that a written number is, if it is written as one and has at most 64 bits. Minus
zero is not among the integers. -/
def Literal.integer? (l : Literal) : Option Int :=
  if l.fraction.isSome || l.exponent.isSome then none
  else
    let n := digitsValue l.whole
    if l.negative then
      if 0 < n ∧ n ≤ Nat.pow 2 63 then some (-(n : Int)) else none
    else if n < Nat.pow 2 64 then some (n : Int) else none

/-- The number that a written number is. -/
def Literal.number (l : Literal) : Except Problem Number :=
  match l.integer? with
  | some i => .ok (.integer i)
  | none =>
    match l.double? with
    | some d => .ok (.double d)
    | none => .error (.malformed .numberOutOfRange)

/-- Reads a number after its minus, if it has one. -/
def scanNumber (negative : Bool) (cs : List Char) : Except Problem (Number × List Char) := do
  let (l, rest) ← literal negative cs
  let n ← l.number
  return (n, rest)

/-! ## Strings -/

/-- The code unit that four hexadecimal digits stand for. -/
def codeUnit? (a b c d : Char) : Option Nat := do
  let a ← Text.Percent.hexValue? a
  let b ← Text.Percent.hexValue? b
  let c ← Text.Percent.hexValue? c
  let d ← Text.Percent.hexValue? d
  return ((a * 16 + b) * 16 + c) * 16 + d

/-- The problem with a text that does not start with four hexadecimal digits: it ends too early
when less than four bytes are left. -/
def badUnit (cs : List Char) : Problem :=
  if (Text.Percent.utf8 cs).length < 4 then .unfinished .string else .malformed .invalidEscape

/-- Whether a code unit is the first half of a pair. -/
def isFirstHalf (n : Nat) : Bool := 0xD800 ≤ n && n ≤ 0xDBFF

/-- Whether a code unit is the second half of a pair. -/
def isSecondHalf (n : Nat) : Bool := 0xDC00 ≤ n && n ≤ 0xDFFF

/-- The character that two halves of a pair stand for. -/
def joinHalves (first second : Nat) : Char :=
  Char.ofNat ((first - 0xD800) * 0x400 + (second - 0xDC00) + 0x10000)

/-- The character that a letter after a backslash stands for. -/
def escapedChar? : Char → Option Char
  | '"' => some '"'
  | '\\' => some '\\'
  | '/' => some '/'
  | 'b' => some '\x08'
  | 'f' => some '\x0c'
  | 'n' => some '\n'
  | 'r' => some '\r'
  | 't' => some '\t'
  | _ => none

/-- Reads a string after its opening quote; `sofar` holds the characters read, the last first. -/
def stringFrom (sofar : List Char) : Step (List Char)
  | [] => .error (.unfinished .string)
  | '"' :: cs => .ok (sofar.reverse, cs)
  | '\\' :: 'u' :: a :: b :: c :: d :: cs =>
    match codeUnit? a b c d with
    | none => .error (badUnit (a :: b :: c :: d :: cs))
    | some n =>
      if isSecondHalf n then .error (.malformed .misplacedUnit)
      else if isFirstHalf n then
        match cs with
        | [] => .error (.unfinished .string)
        | ['\\'] => .error (.unfinished .string)
        | '\\' :: 'u' :: a' :: b' :: c' :: d' :: cs' =>
          match codeUnit? a' b' c' d' with
          | none => .error (badUnit (a' :: b' :: c' :: d' :: cs'))
          | some m =>
            if isSecondHalf m then stringFrom (joinHalves n m :: sofar) cs'
            else .error (.malformed .misplacedUnit)
        | '\\' :: 'u' :: cs' => .error (badUnit cs')
        | _ :: _ => .error (.malformed .unpairedUnit)
      else stringFrom (Char.ofNat n :: sofar) cs
  | '\\' :: 'u' :: cs => .error (badUnit cs)
  | ['\\'] => .error (.unfinished .string)
  | '\\' :: e :: cs =>
    match escapedChar? e with
    | some c => stringFrom (c :: sofar) cs
    | none => .error (.malformed .invalidEscape)
  | c :: cs =>
    if c < ' ' then .error (.malformed .controlCharacter) else stringFrom (c :: sofar) cs

/-- Reads a string after its opening quote. -/
def scanString (cs : List Char) : Except Problem (String × List Char) := do
  let (chars, rest) ← stringFrom [] cs
  return (String.ofList chars, rest)

/-! ## Separators -/

/-- Goes to the next element of a list, after the comma before it, and tells whether there is
one; at the end the closing bracket is taken. -/
def nextElement (first : Bool) (cs : List Char) : Except Problem (Bool × List Char) :=
  match skipSpace cs with
  | [] => .error (.unfinished .list)
  | ']' :: rest => .ok (false, rest)
  | c :: rest =>
    if first then .ok (true, c :: rest)
    else if c = ',' then
      match skipSpace rest with
      | [] => .error (.unfinished .value)
      | ']' :: _ => .error (.malformed .trailingComma)
      | next => .ok (true, next)
    else .error (.malformed .expectedCommaOrBracket)

/-- Reads the key of the next member of an object, after the comma before it; at the end the
closing brace is taken and there is no key. -/
def nextKey (first : Bool) (cs : List Char) : Except Problem (Option String × List Char) :=
  match skipSpace cs with
  | [] => .error (.unfinished .object)
  | '\x7d' :: rest => .ok (none, rest)
  | c :: rest =>
    if first then
      if c = '"' then do
        let (key, rest) ← scanString rest
        return (some key, rest)
      else .error (.malformed .keyNotString)
    else if c = ',' then
      match skipSpace rest with
      | [] => .error (.unfinished .value)
      | '\x7d' :: _ => .error (.malformed .trailingComma)
      | '"' :: rest => do
        let (key, rest) ← scanString rest
        return (some key, rest)
      | _ :: _ => .error (.malformed .keyNotString)
    else .error (.malformed .expectedCommaOrBrace)

/-- Takes the colon between a key and its value. -/
def colon (cs : List Char) : Except Problem (List Char) :=
  match skipSpace cs with
  | [] => .error (.unfinished .object)
  | ':' :: rest => .ok rest
  | _ :: _ => .error (.malformed .expectedColon)

/-- Checks that only space is left. -/
def finish (cs : List Char) : Except Problem Unit :=
  match skipSpace cs with
  | [] => .ok ()
  | _ :: _ => .error (.malformed .trailingCharacters)

/-! ## Values of the wrong kind -/

/-- The problem with a value that is not of the expected kind. A scalar is read to its end first,
so that a flaw in it comes before its kind. -/
def mismatch (expected : String) (cs : List Char) : Problem :=
  match cs with
  | 'n' :: rest => ofWord "ull" rest .null
  | 't' :: rest => ofWord "rue" rest (.boolean true)
  | 'f' :: rest => ofWord "alse" rest (.boolean false)
  | '-' :: rest => ofNumber (scanNumber true rest)
  | '"' :: rest =>
    match scanString rest with
    | .ok (s, _) => .wrongType (.string s) expected
    | .error p => p
  | '[' :: _ => .wrongType .list expected
  | '\x7b' :: _ => .wrongType .object expected
  | c :: rest =>
    if c.isDigit then ofNumber (scanNumber false (c :: rest)) else .malformed .expectedValue
  | [] => .malformed .expectedValue
where
  ofWord (w : String) (rest : List Char) (found : Found) : Problem :=
    match word w.toList rest with
    | .ok _ => .wrongType found expected
    | .error p => p
  ofNumber : Except Problem (Number × List Char) → Problem
    | .ok (n, _) => .wrongType (.number n) expected
    | .error p => p

end RecipeClient.Json
