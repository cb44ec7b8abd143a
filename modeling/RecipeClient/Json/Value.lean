import RecipeClient.Number.Double

/-!
# JSON values

A value keeps the members of an object as a list of entries. A value that was read from a text
has its entries in the order of the text, repeated keys included; `Value.canonical` sorts them by
key and keeps the last entry of each key, which is how the client holds every value that it does
not interpret.
-/

namespace RecipeClient.Json

/-- A JSON number: an integer as written without fraction or exponent, or a double. -/
inductive Number where
  /-- A number written as an integer of at most 64 bits. -/
  | integer (value : Int)
  /-- Any other number. -/
  | double (value : Double)
deriving DecidableEq, Inhabited

/-- A JSON value. -/
inductive Value where
  | null
  | boolean (value : Bool)
  | number (value : Number)
  | string (value : String)
  | array (items : List Value)
  | object (members : List (String × Value))
deriving Inhabited

/-- The members of an object, in order. -/
abbrev Entries := List (String × Value)

/-! ## Equality -/

mutual

/-- Whether two values are the same, members compared in order. -/
def Value.same : Value → Value → Bool
  | .null, .null => true
  | .boolean a, .boolean b => a == b
  | .number a, .number b => a == b
  | .string a, .string b => a == b
  | .array as, .array bs => Value.sameItems as bs
  | .object as, .object bs => Value.sameMembers as bs
  | _, _ => false

/-- Whether two lists hold the same values. -/
def Value.sameItems : List Value → List Value → Bool
  | [], [] => true
  | a :: as, b :: bs => Value.same a b && Value.sameItems as bs
  | _, _ => false

/-- Whether two lists hold the same members. -/
def Value.sameMembers : List (String × Value) → List (String × Value) → Bool
  | [], [] => true
  | (j, a) :: as, (k, b) :: bs => j == k && Value.same a b && Value.sameMembers as bs
  | _, _ => false

end

instance : BEq Value := ⟨Value.same⟩

/-! ## Entries -/

namespace Entries

/-- The value under a key; the last entry of the key counts. -/
def get? (entries : Entries) (key : String) : Option Value :=
  (entries.reverse.find? (·.1 == key)).map (·.2)

/-- The keys, in order. -/
def keys (entries : Entries) : List String := entries.map (·.1)

/-- Puts an entry into its place among sorted entries, in place of one with the same key. -/
def insert (key : String) (value : Value) : Entries → Entries
  | [] => [(key, value)]
  | (k, v) :: rest =>
    if key < k then (key, value) :: (k, v) :: rest
    else if key = k then (key, value) :: rest
    else (k, v) :: insert key value rest

/-- The entries sorted by key, with the last entry of each key. -/
def sorted (entries : Entries) : Entries :=
  entries.foldl (fun sofar entry => insert entry.1 entry.2 sofar) []

/-- The entries of one object with those of another laid over them. -/
def overlay (base extra : Entries) : Entries :=
  extra.foldl (fun sofar entry => insert entry.1 entry.2 sofar) (sorted base)

end Entries

/-! ## Canonical values -/

mutual

/-- The value with the members of every object sorted by key, the last one of each key. -/
def Value.canonical : Value → Value
  | .array items => .array (Value.canonicalItems items)
  | .object members => .object (Entries.sorted (Value.canonicalMembers members))
  | v => v

/-- Every item in canonical form. -/
def Value.canonicalItems : List Value → List Value
  | [] => []
  | v :: vs => Value.canonical v :: Value.canonicalItems vs

/-- Every member's value in canonical form. -/
def Value.canonicalMembers : List (String × Value) → List (String × Value)
  | [] => []
  | (k, v) :: rest => (k, Value.canonical v) :: Value.canonicalMembers rest

end

namespace Value

/-- The member of an object under a key; `none` also for any other kind of value. -/
def member? (v : Value) (key : String) : Option Value :=
  match v with
  | .object members => Entries.get? members key
  | _ => none

/-- The text of a string value. -/
def asString? : Value → Option String
  | .string s => some s
  | _ => none

/-- The truth value of a boolean value. -/
def asBool? : Value → Option Bool
  | .boolean b => some b
  | _ => none

/-- The integer of an integer value. -/
def asInt? : Value → Option Int
  | .number (.integer i) => some i
  | _ => none

/-- The items of a list value. -/
def asArray? : Value → Option (List Value)
  | .array items => some items
  | _ => none

/-- The texts of a list of string values. -/
def asStrings? (v : Value) : Option (List String) :=
  v.asArray?.bind fun items => items.mapM asString?

/-- A value in place of an absent one. -/
def orNull : Option Value → Value
  | some v => v
  | none => .null

end Value

end RecipeClient.Json
