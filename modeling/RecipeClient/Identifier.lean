import RecipeClient.Json.Text

/-!
# Identifiers

Identifiers of 128 bits made from noise, and keys made from the time. An identifier tells by six of
its bits that it was made this way: four hold the version, 4, and two the variant.
-/

namespace RecipeClient

/-- An identifier of 128 bits. -/
structure Uuid where
  bits : BitVec 128
deriving DecidableEq

namespace Uuid

/-- The lowest of the four bits that hold the version. -/
def versionAt : Nat := 76

/-- The lowest of the two bits that hold the variant. -/
def variantAt : Nat := 62

/-- The identifier made from noise. -/
def ofNoise (noise : BitVec 128) : Uuid :=
  let fixed : BitVec 128 := (15#128 <<< versionAt) ||| (3#128 <<< variantAt)
  ⟨(noise &&& ~~~fixed) ||| (4#128 <<< versionAt) ||| (2#128 <<< variantAt)⟩

def version (u : Uuid) : Nat := (u.bits >>> versionAt &&& 15#128).toNat

/-- The lower-case hexadecimal digits of a number, in a field of a width. -/
def hexDigits : (width n : Nat) → List Char
  | 0, _ => []
  | width + 1, n => hexDigits width (n / 16) ++ [(Nat.digitChar (n % 16))]

/-- The text of an identifier: 32 digits in five groups with dashes between them. -/
def text (u : Uuid) : String :=
  let digits := hexDigits 32 u.bits.toNat
  let group (start length : Nat) := (digits.drop start).take length
  String.ofList (group 0 8 ++ '-' :: group 8 4 ++ '-' :: group 12 4 ++ '-' :: group 16 4 ++
    '-' :: group 20 12)

/-- The next identifier from a source of noise. -/
def next {γ : Type} [RandomGen γ] (source : γ) : Uuid × γ :=
  let (noise, source) := randNat source 0 (Nat.pow 2 128 - 1)
  (ofNoise (BitVec.ofNat 128 noise), source)

end Uuid

/-- A key that differs from one time to another, made from the milliseconds since 1970. -/
def timeKey (milliseconds : Int) : String := (Json.Number.integer milliseconds).text

end RecipeClient
