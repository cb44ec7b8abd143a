import RecipeClient.Json.Codec

/-!
# Records

A record is described once, by the list of its members in their order; the description says how
the record is read and how it is written.

A record is read from an object with its members in any order. Each known member may stand there
once. Unknown members are passed over, or kept if the record has a place for them. When the object
ends, the record is put together in the order of its description, so the order of the text has no
influence on it. A record without a place for unknown members is read from a list of its members
as well.
-/

namespace RecipeClient.Json

/-- What a member is when its text is left out. -/
inductive Absence (β : Type) where
  /-- The member has to be there. -/
  | refused
  /-- An object may leave the member out, a list may not. -/
  | implied (value : β)
  /-- The member may be left out. -/
  | assumed (value : β)

namespace Absence

/-- What stands for a member that an object leaves out. -/
def inObject? {β : Type} : Absence β → Option β
  | .refused => none
  | .implied b => some b
  | .assumed b => some b

/-- What stands for a member that a list leaves out. -/
def inList? {β : Type} : Absence β → Option β
  | .assumed b => some b
  | _ => none

end Absence

/-- One member of the records of a type. -/
structure Member (ρ : Type) where
  /-- The key in the JSON object. -/
  name : String
  /-- The type of the member's values. -/
  {β : Type}
  /-- How the values are read and written. -/
  codec : Codec β
  /-- What stands for a value that is left out. -/
  absence : Absence β
  /-- Which values are left out when the record is written. -/
  omits : β → Bool
  /-- The value in a record. -/
  get : ρ → β
  /-- The record with another value. -/
  set : ρ → β → ρ

/-- The place of the members that a record does not know. -/
structure Remainder (ρ : Type) where
  /-- The unknown members of a record. -/
  get : ρ → Entries
  /-- The record with other unknown members. -/
  set : ρ → Entries → ρ

/-- The description of a record type. -/
structure Record (ρ : Type) where
  /-- The name that messages call it by. -/
  name : String
  /-- Its members, in order. -/
  members : List (Member ρ)
  /-- The place of unknown members, if they are kept. -/
  remainder : Option (Remainder ρ)
  /-- Some record; all that it holds is replaced. -/
  blank : ρ

namespace Member

variable {ρ β : Type}

def required (name : String) (codec : Codec β) (get : ρ → β) (set : ρ → β → ρ) : Member ρ :=
  ⟨name, codec, .refused, fun _ => false, get, set⟩

/-- A member with a value that stands for a missing one. -/
def withDefault (name : String) (codec : Codec β) (value : β) (get : ρ → β) (set : ρ → β → ρ) :
    Member ρ :=
  ⟨name, codec, .assumed value, fun _ => false, get, set⟩

/-- A member that may be missing or `null`, and is written as `null` then. -/
def optional (name : String) (codec : Codec β) (get : ρ → Option β) (set : ρ → Option β → ρ) :
    Member ρ :=
  ⟨name, codec.optional, .assumed none, fun _ => false, get, set⟩

/-- A member that may be missing or `null`, and is left out then. -/
def optionalOmitted (name : String) (codec : Codec β) (get : ρ → Option β)
    (set : ρ → Option β → ρ) : Member ρ :=
  ⟨name, codec.optional, .assumed none, Option.isNone, get, set⟩

/-- A member of a query, left out when it is not set; a query given as a list has to spell it. -/
def criterion (name : String) (codec : Codec β) (get : ρ → Option β) (set : ρ → Option β → ρ) :
    Member ρ :=
  ⟨name, codec.optional, .implied none, Option.isNone, get, set⟩

/-- A list that may be missing or `null`, which both stand for the empty list. -/
def listOrNull (name : String) (codec : Codec β) (get : ρ → List β) (set : ρ → List β → ρ) :
    Member ρ :=
  ⟨name, codec.listOrNull, .assumed [], fun _ => false, get, set⟩

/-- A list that may be missing, but not `null`. -/
def list (name : String) (codec : Codec β) (get : ρ → List β) (set : ρ → List β → ρ) :
    Member ρ :=
  ⟨name, codec.list, .assumed [], fun _ => false, get, set⟩

/-- A list that may be missing, but not `null`, and is left out when it is empty. -/
def listOmitted (name : String) (codec : Codec β) (get : ρ → List β) (set : ρ → List β → ρ) :
    Member ρ :=
  ⟨name, codec.list, .assumed [], List.isEmpty, get, set⟩

/-- Reads a value of the member, as what it does to a record. -/
def readUpdate (m : Member ρ) : Reader (ρ → ρ) := fun depth cs => do
  let (b, rest) ← m.codec.read depth cs
  return ((m.set · b), rest)

/-- What a value of the member, taken from one that was read before, does to a record. -/
def takeUpdate? (m : Member ρ) (v : Value) : Option (ρ → ρ) :=
  (m.codec.ofValue? v).map fun b => (m.set · b)

/-- What a value that an object leaves out does to a record. -/
def updateInObject? (m : Member ρ) : Option (ρ → ρ) :=
  m.absence.inObject?.map fun b => (m.set · b)

/-- What a value that a list leaves out does to a record. -/
def updateInList? (m : Member ρ) : Option (ρ → ρ) :=
  m.absence.inList?.map fun b => (m.set · b)

/-- The entry that the member has in a written record, if any. -/
def written? (m : Member ρ) (r : ρ) : Option (String × Value) :=
  if m.omits (m.get r) then none else some (m.name, m.codec.write (m.get r))

end Member

namespace Record

variable {ρ : Type}

/-- What has been read of an object: the known members, as what they do to a record, and the
unknown ones, both in the order of the text. -/
structure Gathered (ρ : Type) where
  /-- The known members. -/
  known : List (String × (ρ → ρ))
  /-- The unknown members. -/
  unknown : Entries

/-- Reads the value of the member with a key, after the key. -/
def gather (r : Record ρ) (depth : Nat) (key : String) (sofar : Gathered ρ) :
    Step (Gathered ρ) := fun cs => do
  match r.members.find? (·.name == key) with
  | some m =>
    if sofar.known.any (·.1 == key) then throw (.repeatedMember key)
    let cs ← colon cs
    let (update, cs) ← m.readUpdate depth cs
    return ({ sofar with known := sofar.known ++ [(key, update)] }, cs)
  | none =>
    let cs ← colon cs
    match r.remainder with
    | some _ =>
      let (v, cs) ← Value.read depth cs
      return ({ sofar with unknown := sofar.unknown ++ [(key, v)] }, cs)
    | none => return (sofar, ← skipValue cs)

/-- Reads the members of an object after its opening brace, at most `fuel` of them. -/
def gatherAll (r : Record ρ) (depth : Nat) :
    (fuel : Nat) → (first : Bool) → Gathered ρ → Step (Gathered ρ)
  | 0, _, _, _ => .error (.unfinished .object)
  | fuel + 1, first, sofar, cs => do
    match ← nextKey first cs with
    | (none, cs) => return (sofar, cs)
    | (some key, cs) =>
      let (sofar, cs) ← r.gather depth key sofar cs
      gatherAll r depth fuel false sofar cs

/-- Puts a record together from what was read of an object, member by member. -/
def assemble (known : List (String × (ρ → ρ))) :
    List (Member ρ) → ρ → Except Problem ρ
  | [], a => .ok a
  | m :: ms, a =>
    match known.lookup m.name with
    | some update => assemble known ms (update a)
    | none =>
      match m.updateInObject? with
      | some update => assemble known ms (update a)
      | none => .error (.missingMember m.name)

/-- The record that what was read of an object makes. -/
def ofGathered (r : Record ρ) (g : Gathered ρ) : Except Problem ρ := do
  let a ← assemble g.known r.members r.blank
  match r.remainder with
  | some place => return place.set a (Entries.sorted (Value.canonicalMembers g.unknown))
  | none => return a

/-- Goes on without the elements that a list has left out, from the one at an index. -/
def withoutRest (r : Record ρ) (index : Nat) : List (Member ρ) → ρ → Except Problem ρ
  | [], a => .ok a
  | m :: ms, a =>
    match m.updateInList? with
    | some update => withoutRest r (index + 1) ms (update a)
    | none => .error (.shortList index r.name r.members.length)

/-- Takes the end of a list whose last element has been read. -/
def endOfList (cs : List Char) : Except Problem (List Char) :=
  match skipSpace cs with
  | [] => .error (.unfinished .list)
  | ']' :: rest => .ok rest
  | ',' :: rest =>
    match skipSpace rest with
    | ']' :: _ => .error (.malformed .trailingComma)
    | _ => .error (.malformed .trailingCharacters)
  | _ :: _ => .error (.malformed .trailingCharacters)

/-- Reads the elements of a record given as a list, from the one at an index. -/
def readElements (r : Record ρ) (depth index : Nat) : List (Member ρ) → ρ → Step ρ
  | [], a, cs => do return (a, ← endOfList cs)
  | m :: ms, a, cs => do
    match ← nextElement (index == 0) cs with
    | (false, cs) => return (← withoutRest r index (m :: ms) a, cs)
    | (true, cs) =>
      let (update, cs) ← m.readUpdate depth cs
      readElements r depth (index + 1) ms (update a) cs

def read (r : Record ρ) : Reader ρ := fun depth cs =>
  match skipSpace cs with
  | [] => .error (.unfinished .value)
  | '\x7b' :: rest =>
    match depth with
    | 0 => .error (.malformed .tooDeep)
    | depth + 1 => do
      let (g, rest) ← r.gatherAll depth (rest.length + 1) true ⟨[], []⟩ rest
      return (← r.ofGathered g, rest)
  | '[' :: rest =>
    if r.remainder.isSome then .error (mismatch ("struct " ++ r.name) ('[' :: rest))
    else
      match depth with
      | 0 => .error (.malformed .tooDeep)
      | depth + 1 => r.readElements depth 0 r.members r.blank rest
  | rest => .error (mismatch ("struct " ++ r.name) rest)

/-! ## Taking a record from a value -/

/-- Takes the members of a record from the entries of an object. -/
def takeMembers (entries : Entries) : List (Member ρ) → ρ → Option ρ
  | [], a => some a
  | m :: ms, a => do
    let update ← match entries.get? m.name with
      | some v => m.takeUpdate? v
      | none => m.updateInObject?
    takeMembers entries ms (update a)

/-- Whether a key is the name of a member. -/
def knows (r : Record ρ) (key : String) : Bool := r.members.any (·.name == key)

/-- Takes a record from the entries of an object. -/
def ofEntries? (r : Record ρ) (entries : Entries) : Option ρ := do
  let a ← takeMembers entries r.members r.blank
  match r.remainder with
  | some place =>
    let unknown := entries.filter fun entry => !r.knows entry.1
    return place.set a (Entries.sorted (Value.canonicalMembers unknown))
  | none => return a

def takeElements : List (Member ρ) → List Value → ρ → Option ρ
  | [], [], a => some a
  | [], _ :: _, _ => none
  | m :: ms, [], a => m.updateInList?.bind fun update => takeElements ms [] (update a)
  | m :: ms, v :: vs, a => (m.takeUpdate? v).bind fun update => takeElements ms vs (update a)

/-- Takes a record from a value. -/
def ofValue? (r : Record ρ) : Value → Option ρ
  | .object entries => r.ofEntries? entries
  | .array elements =>
    if r.remainder.isSome then none else takeElements r.members elements r.blank
  | _ => none

/-! ## Writing -/

/-- The entries of a written record: its members in order, then the unknown ones. -/
def entries (r : Record ρ) (a : ρ) : Entries :=
  r.members.filterMap (·.written? a) ++
    match r.remainder with
    | some place => place.get a
    | none => []

def codec (r : Record ρ) : Codec ρ where
  read := r.read
  ofValue? := r.ofValue?
  write a := .object (r.entries a)

end Record

end RecipeClient.Json
