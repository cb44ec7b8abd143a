import RecipeClient.Wire.Server

/-!
# Messages and responses as text

A message begins with a line that names its method and target, lines of fields, and an empty line;
the body follows. A response begins with a line that holds its status, and its fields tell where
its body ends: after a number of bytes, after a list of chunks, or with the connection.
-/

namespace RecipeClient.Wire

/-! ## Messages -/

/-- The bytes of a message to a host. -/
def Message.encode (m : Message) (host : String) : List UInt8 :=
  let field (name : String) (value : Option String) : String :=
    match value with
    | some v => s!"{name}: {v}\r\n"
    | none => ""
  bytes (s!"{m.method.name} {m.target} HTTP/1.1\r\n" ++
    field "authorization" m.authorization ++ field "content-type" m.contentType ++
    field "accept" (some "*/*") ++ field "host" (some host) ++
    field "content-length" (if m.contentType.isSome then some s!"{m.body.length}" else none) ++
    "\r\n") ++ m.body

/-! ## Responses -/

/-- Where the body of a response ends. -/
inductive Extent where
  /-- After a number of bytes. -/
  | bytes (count : Nat)
  /-- After a list of chunks, each with its length before it. -/
  | chunks
  | connection
deriving DecidableEq

/-- The beginning of a response. -/
structure Head where
  status : Status
  /-- The fields, with their names in lower case. -/
  fields : List (String × String)

namespace Head

/-- A text without blanks around it. -/
def trimmed (cs : List Char) : String := String.ofList (Text.trim cs)

/-- A name and a value with a colon between them. -/
def field? (line : String) : Option (String × String) :=
  match line.toList.span (· != ':') with
  | (name, ':' :: value) => some ((trimmed name).toLower, trimmed value)
  | _ => none

/-- The status in the first line of a response. -/
def status? (line : String) : Option Status :=
  match Text.split (· == ' ') line.toList with
  | _ :: code :: _ => (trimmed code).toNat?.bind Status.ofNat?
  | _ => none

/-- The beginning of a response, from its lines. -/
def ofLines? : List String → Option Head
  | [] => none
  | first :: rest => (status? first).map fun status => ⟨status, rest.filterMap field?⟩

/-- Where the body ends. -/
def extent (h : Head) : Extent :=
  if Response.isInterim h.status ∨ Response.isBodiless h.status then .bytes 0
  else if (h.fields.lookup "transfer-encoding").any (·.toLower == "chunked") then .chunks
  else
    match (h.fields.lookup "content-length").bind (·.toNat?) with
    | some count => .bytes count
    | none => .connection

end Head

/-- The length of a chunk, from the line before it. -/
def chunkLength? (line : String) : Option Nat :=
  let digits := (Text.trim line.toList).takeWhile fun c => (Text.Percent.hexValue? c).isSome
  if digits.isEmpty then none
  else some (digits.foldl (fun n c => 16 * n + (Text.Percent.hexValue? c).getD 0) 0)

end RecipeClient.Wire
