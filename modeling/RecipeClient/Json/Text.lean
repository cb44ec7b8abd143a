import RecipeClient.Json.Value
import RecipeClient.Number.Shortest

/-!
# The text of a value

Values are written compactly, without spaces, members in the order in which the value holds
them. A string escapes quotes, backslashes and the characters below the space, and nothing else.
-/

namespace RecipeClient.Json

/-- The lower-case hexadecimal digit of a number below sixteen. -/
def hexDigit (n : Nat) : Char :=
  if n < 10 then Char.ofNat ('0'.toNat + n) else Char.ofNat ('a'.toNat + (n - 10))

/-- A character as it stands in a written string. -/
def escape (c : Char) : List Char :=
  if c = '"' then ['\\', '"']
  else if c = '\\' then ['\\', '\\']
  else if c = '\x08' then ['\\', 'b']
  else if c = '\x0c' then ['\\', 'f']
  else if c = '\n' then ['\\', 'n']
  else if c = '\r' then ['\\', 'r']
  else if c = '\t' then ['\\', 't']
  else if c < ' ' then ['\\', 'u', '0', '0', hexDigit (c.toNat / 16), hexDigit (c.toNat % 16)]
  else [c]

/-- A written string, with its quotes. -/
def stringChars (s : String) : List Char :=
  '"' :: (s.toList.flatMap escape ++ ['"'])

/-- A written integer. -/
def intChars (i : Int) : List Char :=
  if i < 0 then '-' :: Nat.toDigits 10 i.natAbs else Nat.toDigits 10 i.natAbs

/-- A written number. -/
def Number.chars : Number → List Char
  | .integer i => intChars i
  | .double d => d.text

def Number.text (n : Number) : String := String.ofList n.chars

mutual

/-- A written value. -/
def Value.chars : Value → List Char
  | .null => "null".toList
  | .boolean true => "true".toList
  | .boolean false => "false".toList
  | .number n => n.chars
  | .string s => stringChars s
  | .array items => '[' :: (Value.itemChars items ++ [']'])
  | .object members => '\x7b' :: (Value.memberChars members ++ ['\x7d'])

/-- Written items, with commas between them. -/
def Value.itemChars : List Value → List Char
  | [] => []
  | [v] => Value.chars v
  | v :: vs => Value.chars v ++ ',' :: Value.itemChars vs

/-- Written members, with commas between them. -/
def Value.memberChars : List (String × Value) → List Char
  | [] => []
  | [(k, v)] => stringChars k ++ ':' :: Value.chars v
  | (k, v) :: rest => stringChars k ++ ':' :: (Value.chars v ++ ',' :: Value.memberChars rest)

end

def Value.text (v : Value) : String := String.ofList v.chars

end RecipeClient.Json
