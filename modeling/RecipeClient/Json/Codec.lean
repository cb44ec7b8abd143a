import RecipeClient.Json.Read
import RecipeClient.Time.Date

/-!
# Codecs

A codec reads the values of a type from JSON texts, takes them from JSON values that were read
before, and writes them as JSON values. Reading never turns one kind of value into another: a
number is no text, and `null` is none of the others. Only a double also takes an integer.

Reading a text reports the first problem in the order of the text. Taking a value only tells
whether it is one of the type; of the repeated members of an object it takes the last.
-/

namespace RecipeClient.Json

/-- How the values of a type are read and written. -/
structure Codec (α : Type) where
  /-- Reads a value from the front of a text. -/
  read : Reader α
  /-- Takes a value from one that was read before. -/
  ofValue? : Value → Option α
  write : α → Value

namespace Codec

/-- Reads a whole text. -/
def ofText {α : Type} (codec : Codec α) (text : String) : Except Problem α :=
  codec.read.whole text

/-- Writes a value in canonical form. -/
def toValue {α : Type} (codec : Codec α) (a : α) : Value := (codec.write a).canonical

/-! ## Scalars -/

/-- Texts. -/
def string : Codec String where
  read := readString "a string"
  ofValue? := Value.asString?
  write := .string

/-- Truth values. -/
def boolean : Codec Bool where
  read := readBoolean
  ofValue? := Value.asBool?
  write := .boolean

/-- An integer as one of 64 bits with a sign, if it fits. -/
def fitting? (i : Int) : Option Int64 :=
  if Int64.minValue.toInt ≤ i ∧ i ≤ Int64.maxValue.toInt then some (Int64.ofInt i) else none

/-- Integers of 64 bits with a sign. -/
def integer : Codec Int64 where
  read depth cs := do
    match ← readNumber "i64" depth cs with
    | (.integer i, rest) =>
      match fitting? i with
      | some n => return (n, rest)
      | none => throw (.wrongValue (.number (.integer i)) "i64")
    | (.double d, _) => throw (.wrongType (.number (.double d)) "i64")
  ofValue? v := v.asInt?.bind fitting?
  write i := .number (.integer i.toInt)

/-- The double nearest to an integer of at most 64 bits. -/
def nearestDouble (i : Int) : Double :=
  (Double.ofRatio? (i < 0) i.natAbs 1).getD default

def double : Codec Double where
  read depth cs := do
    match ← readNumber "f64" depth cs with
    | (.integer i, rest) => return (nearestDouble i, rest)
    | (.double d, rest) => return (d, rest)
  ofValue?
    | .number (.integer i) => some (nearestDouble i)
    | .number (.double d) => some d
    | _ => none
  write d := .number (.double d)

/-- Calendar dates, given by their text. -/
def date : Codec Date where
  read depth cs := do
    let (s, rest) ← readString "a formatted date string" depth cs
    match Date.ofText s with
    | .ok d => return (d, rest)
    | .error p => throw (.badDate p)
  ofValue? v := v.asString?.bind fun s => (Date.ofText s).toOption
  write d := .string d.text

/-- Values of any kind, held in canonical form. -/
def any : Codec Value where
  read depth cs := do
    let (v, rest) ← Value.read depth cs
    return (v.canonical, rest)
  ofValue? v := some v.canonical
  write v := v

/-- Values that each have a name; they are listed in the order in which messages name them. -/
def named {α : Type} (values : List α) (name : α → String) : Codec α where
  read := readNamed (values.map fun a => (name a, a))
  ofValue?
    | .string s => values.find? (name · == s)
    | .object [(s, .null)] => values.find? (name · == s)
    | _ => none
  write a := .string (name a)

/-! ## Compounds -/

/-- Values that may be absent; an absent one is `null`. -/
def optional {α : Type} (codec : Codec α) : Codec (Option α) where
  read := readOptional codec.read
  ofValue?
    | .null => some none
    | v => (codec.ofValue? v).map some
  write
    | some a => codec.write a
    | none => .null

def list {α : Type} (codec : Codec α) : Codec (List α) where
  read := readList codec.read
  ofValue? v := v.asArray?.bind fun items => items.mapM codec.ofValue?
  write as := .array (as.map codec.write)

/-- Lists that may be given as `null` when they are empty. -/
def listOrNull {α : Type} (codec : Codec α) : Codec (List α) where
  read depth cs := do
    let (as, rest) ← readOptional (readList codec.read) depth cs
    return (as.getD [], rest)
  ofValue? v := ((optional (list codec)).ofValue? v).map (·.getD [])
  write := (list codec).write

/-- Values of several kinds, told apart by the whole value that was read. -/
def alternatives {α : Type} (type : String) (ofValue? : Value → Option α) (write : α → Value) :
    Codec α where
  read depth cs := do
    let (v, rest) ← Value.read depth cs
    match ofValue? v with
    | some a => return (a, rest)
    | none => throw (.noAlternative type)
  ofValue? := ofValue?
  write := write

end Codec

end RecipeClient.Json
