/-!
# Percent-encoding

A text is encoded byte by byte in UTF-8: ASCII letters, digits and `-`, `_`, `.`, `~` stand for
themselves, every other byte is written as `%` and two upper-case hexadecimal digits. `decode`
turns such a text back into its bytes.
-/

namespace RecipeClient.Text.Percent

/-- The bytes of a text in UTF-8. -/
def utf8 (cs : List Char) : List UInt8 := cs.flatMap String.utf8EncodeChar

/-- Whether a character is an ASCII letter or digit. -/
def isAsciiAlphanumeric (c : Char) : Bool :=
  ('a' ≤ c && c ≤ 'z') || ('A' ≤ c && c ≤ 'Z') || ('0' ≤ c && c ≤ '9')

/-- Whether a character stands for itself in a query. -/
def isUnreserved (c : Char) : Bool :=
  isAsciiAlphanumeric c || c == '-' || c == '_' || c == '.' || c == '~'

/-- The upper-case hexadecimal digit of a number below sixteen. -/
def upperHexDigit (n : Nat) : Char :=
  if n < 10 then Char.ofNat ('0'.toNat + n) else Char.ofNat ('A'.toNat + (n - 10))

/-- A byte as `%` and two hexadecimal digits. -/
def escaped (b : UInt8) : List Char :=
  ['%', upperHexDigit (b.toNat / 16), upperHexDigit (b.toNat % 16)]

/-- A byte as itself if `keep` says so of its character, and escaped otherwise. -/
def encodeByte (keep : Char → Bool) (b : UInt8) : List Char :=
  let c := Char.ofNat b.toNat
  if b < 128 && keep c then [c] else escaped b

/-- The percent-encoded form of a text. -/
def encode (cs : List Char) : List Char := (utf8 cs).flatMap (encodeByte isUnreserved)

/-- The value of a hexadecimal digit of either case. -/
def hexValue? (c : Char) : Option Nat :=
  if '0' ≤ c && c ≤ '9' then some (c.toNat - '0'.toNat)
  else if 'A' ≤ c && c ≤ 'F' then some (c.toNat - 'A'.toNat + 10)
  else if 'a' ≤ c && c ≤ 'f' then some (c.toNat - 'a'.toNat + 10)
  else none

/-- The bytes that a percent-encoded text stands for; refused where `%` is not followed by two
hexadecimal digits. -/
def decodeBytes : List Char → Option (List UInt8)
  | [] => some []
  | '%' :: a :: b :: cs => do
    let high ← hexValue? a
    let low ← hexValue? b
    let bytes ← decodeBytes cs
    return UInt8.ofNat (16 * high + low) :: bytes
  | c :: cs => do
    if c == '%' then none
    let bytes ← decodeBytes cs
    return String.utf8EncodeChar c ++ bytes

end RecipeClient.Text.Percent
