import RecipeClient.Json.Text
import RecipeClient.Text.Escaped

/-!
# Why a text is not the value that was asked for

Reading stops at the first problem in the order of the text. A problem is a flaw of the text
itself, an early end, or a value or member of another kind than the one asked for. `message`
gives the wording and `category` the class of each.
-/

namespace RecipeClient.Json

/-- What makes a text no JSON, other than ending too early. -/
inductive Flaw where
  /-- No value can start here. -/
  | expectedValue
  /-- A word that is not `null`, `true` or `false`. -/
  | unknownWord
  /-- A number with a misplaced or missing digit. -/
  | invalidNumber
  /-- A number beyond the range of finite doubles. -/
  | numberOutOfRange
  /-- A member that does not start with a quoted key. -/
  | keyNotString
  /-- A key without a colon after it. -/
  | expectedColon
  /-- An item followed by neither a comma nor the end of the list. -/
  | expectedCommaOrBracket
  /-- A member followed by neither a comma nor the end of the object. -/
  | expectedCommaOrBrace
  /-- A comma before the end of a list or object. -/
  | trailingComma
  /-- Text after the value. -/
  | trailingCharacters
  /-- More containers within one another than are read. -/
  | tooDeep
  /-- A backslash before a character that cannot follow one. -/
  | invalidEscape
  /-- A control character that stands for itself in a string. -/
  | controlCharacter
  /-- The first half of a pair of code units without a second one. -/
  | unpairedUnit
  /-- The second half of a pair of code units without a first one. -/
  | misplacedUnit
deriving DecidableEq, Inhabited

/-- What was being read when the text ended. -/
inductive Unfinished where
  /-- A value had to follow, or a number or word to go on. -/
  | value
  /-- A list was open. -/
  | list
  /-- An object was open. -/
  | object
  /-- A string was open. -/
  | string
deriving DecidableEq, Inhabited

/-- The kind of value that stands where another one was asked for. -/
inductive Found where
  | null
  | boolean (value : Bool)
  | number (value : Number)
  | string (value : String)
  | list
  | object
deriving DecidableEq, Inhabited

/-- Why a text is not a date. -/
inductive DateProblem where
  /-- Something else than the digit or dash that had to follow. -/
  | invalidCharacters
  /-- A number that no year, month or day has, or a day that the month lacks. -/
  | outOfRange
  /-- The text ends before the day. -/
  | tooShort
  /-- Text after the day. -/
  | trailing
deriving DecidableEq, Inhabited

/-- The first problem met in a text. -/
inductive Problem where
  /-- The text is no JSON. -/
  | malformed (flaw : Flaw)
  /-- The text ends too early. -/
  | unfinished (what : Unfinished)
  /-- A value of another kind than the one asked for. -/
  | wrongType (found : Found) (expected : String)
  /-- An integer beyond the range asked for. -/
  | wrongValue (found : Found) (expected : String)
  | missingMember (name : String)
  /-- A member that is there twice. -/
  | repeatedMember (name : String)
  /-- A name that is none of the known ones. -/
  | unknownName (name : String) (known : List String)
  /-- A record given as a list that ends before the element at this index, which has to be there. -/
  | shortList (index : Nat) (record : String) (size : Nat)
  /-- A value that is none of the alternatives of a type. -/
  | noAlternative (type : String)
  /-- A text that is no date. -/
  | badDate (problem : DateProblem)
deriving DecidableEq, Inhabited

/-- The classes of problems. -/
inductive Category where
  /-- The text is no JSON. -/
  | malformed
  /-- The text ends too early. -/
  | unfinished
  /-- The text is JSON for something else. -/
  | data
deriving DecidableEq, Inhabited

namespace Problem

/-- The class of a problem. -/
def category : Problem → Category
  | .malformed _ => .malformed
  | .unfinished _ => .unfinished
  | _ => .data

end Problem

/-! ## Wording -/

/-- The name of a class of problems. -/
def Category.name : Category → String
  | .malformed => "syntax"
  | .unfinished => "eof"
  | .data => "data"

/-- The wording of a flaw. -/
def Flaw.message : Flaw → String
  | .expectedValue => "expected value"
  | .unknownWord => "expected ident"
  | .invalidNumber => "invalid number"
  | .numberOutOfRange => "number out of range"
  | .keyNotString => "key must be a string"
  | .expectedColon => "expected `:`"
  | .expectedCommaOrBracket => "expected `,` or `]`"
  | .expectedCommaOrBrace => "expected `,` or `\x7d`"
  | .trailingComma => "trailing comma"
  | .trailingCharacters => "trailing characters"
  | .tooDeep => "recursion limit exceeded"
  | .invalidEscape => "invalid escape"
  | .controlCharacter =>
    "control character (\\u0000-\\u001F) found while parsing a string"
  | .unpairedUnit => "unexpected end of hex escape"
  | .misplacedUnit => "lone leading surrogate in hex escape"

/-- The wording of what was being read when the text ended. -/
def Unfinished.message : Unfinished → String
  | .value => "EOF while parsing a value"
  | .list => "EOF while parsing a list"
  | .object => "EOF while parsing an object"
  | .string => "EOF while parsing a string"

/-- A name between back quotes. -/
def backQuoted (s : String) : String := "`" ++ s ++ "`"

/-- The wording of what was found; numbers are written as everywhere else. -/
def Found.message : Found → String
  | .null => "null"
  | .boolean b => "boolean " ++ backQuoted (if b then "true" else "false")
  | .number (.integer i) => "integer " ++ backQuoted (Number.text (.integer i))
  | .number (.double d) => "floating point " ++ backQuoted (Number.text (.double d))
  | .string s => "string " ++ Text.quoted s
  | .list => "sequence"
  | .object => "map"

/-- The wording of the names that are known. -/
def knownNames : List String → String
  | [] => "there are no variants"
  | [a] => "expected " ++ backQuoted a
  | [a, b] => "expected " ++ backQuoted a ++ " or " ++ backQuoted b
  | names => "expected one of " ++ ", ".intercalate (names.map backQuoted)

/-- The wording of a date problem. -/
def DateProblem.message : DateProblem → String
  | .invalidCharacters => "input contains invalid characters"
  | .outOfRange => "input is out of range"
  | .tooShort => "premature end of input"
  | .trailing => "trailing input"

/-- The wording of a problem. -/
def Problem.message : Problem → String
  | .malformed flaw => flaw.message
  | .unfinished what => what.message
  | .wrongType found expected => "invalid type: " ++ found.message ++ ", expected " ++ expected
  | .wrongValue found expected => "invalid value: " ++ found.message ++ ", expected " ++ expected
  | .missingMember name => "missing field " ++ backQuoted name
  | .repeatedMember name => "duplicate field " ++ backQuoted name
  | .unknownName name known => "unknown variant " ++ backQuoted name ++ ", " ++ knownNames known
  | .shortList index record size =>
    "invalid length " ++ toString index ++ ", expected struct " ++ record ++ " with "
      ++ toString size ++ (if size = 1 then " element" else " elements")
  | .noAlternative type => "data did not match any variant of untagged enum " ++ type
  | .badDate problem => problem.message

end RecipeClient.Json
