import RecipeClient.Cli
import RecipeClient.Identifier
import RecipeClient.Wire.Http

/-!
# The program

Runs the command line in the environment of a process. The program opens no connection itself: it
speaks with the server through two named pipes, `to` and `from`, in the directory that the
variable `MEALIE_PIPES` names, and another program connects them to the network. Without them no
server can be reached.
-/

namespace RecipeClient.Program

open Wire (Extent Head Message Response Server)

/-- The pipes to and from the server. -/
structure Pipes where
  /-- What is sent. -/
  outgoing : IO.FS.Handle
  /-- What comes back. -/
  incoming : IO.FS.Handle

/-- A line without the characters that end it. -/
def bare (line : String) : String :=
  String.ofList (Text.trimEndWhile (fun c => c == '\n' || c == '\r') line.toList)

/-- Reads lines up to an empty one; none if the pipe ends before. -/
partial def readLines (h : IO.FS.Handle) (sofar : List String) : IO (List String) := do
  let line ← h.getLine
  if line.isEmpty then return []
  if (bare line).isEmpty then return sofar.reverse
  readLines h (bare line :: sofar)

/-- Reads a number of bytes, fewer if the pipe ends before. -/
partial def readBytes (h : IO.FS.Handle) (count : Nat) (sofar : ByteArray) : IO ByteArray := do
  if count ≤ sofar.size then return sofar
  let more ← h.read (USize.ofNat (count - sofar.size))
  if more.isEmpty then return sofar
  readBytes h count (sofar ++ more)

/-- Reads chunks up to an empty one, and tells whether it came. -/
partial def readChunks (h : IO.FS.Handle) (sofar : ByteArray) : IO (ByteArray × Bool) := do
  match Wire.chunkLength? (← h.getLine) with
  | none => return (sofar, false)
  | some 0 =>
    let _ ← h.getLine
    return (sofar, true)
  | some count =>
    let chunk ← readBytes h count .empty
    let _ ← h.getLine
    if chunk.size < count then return (sofar ++ chunk, false)
    readChunks h (sofar ++ chunk)

/-- Reads all that comes. -/
partial def readRest (h : IO.FS.Handle) (sofar : ByteArray) : IO ByteArray := do
  let more ← h.read 65536
  if more.isEmpty then return sofar
  readRest h (sofar ++ more)

/-- Bytes as text; a byte that is no text becomes a replacement mark. -/
def textOf (bytes : ByteArray) : String :=
  (String.fromUTF8? bytes).getD <| String.ofList <| bytes.toList.map fun b =>
    if b < 128 then Char.ofNat b.toNat else Char.ofNat 0xFFFD

/-- Reads a body, and tells whether it is whole. -/
def readBody (h : IO.FS.Handle) : Extent → IO (ByteArray × Bool)
  | .bytes count => do
    let body ← readBytes h count .empty
    return (body, count ≤ body.size)
  | .chunks => readChunks h .empty
  | .connection => return (← readRest h .empty, true)

partial def readResponse (h : IO.FS.Handle) : IO Response := do
  match Head.ofLines? (← readLines h []) with
  | none => return .silence
  | some head =>
    if Response.isInterim head.status then readResponse h
    else
      let (body, whole) ← readBody h head.extent
      return if whole then .whole head.status (textOf body) else .cut head.status

/-- Sends a request under a token and waits for the reply. -/
def exchange (pipes : Option Pipes) (server : Server) (host : String) (token : Option String)
    (request : Request) : IO Reply := do
  match pipes, Message.of? server.behind server.boundary token request with
  | some pipes, some message =>
    pipes.outgoing.write ⟨(message.encode host).toArray⟩
    pipes.outgoing.flush
    return server.replyOf request (← readResponse pipes.incoming)
  | _, _ => return server.unreachable

/-- Carries out a dialogue over pipes. -/
def converse {α : Type} (send : Option String → Request → IO Reply) :
    Dialogue α → (token : Option String) → IO α
  | .done value, _ => return value
  | .send request next, token => do converse send (next (← send token request)) token
  | .bear token next, _ => converse send next token

def namesOn (path : String) : List String :=
  ((Text.split (· == '/') path.toList).map String.ofList).filter (· ≠ "")

/-- The path from the root to a place. -/
def absolute (place : List String) : String := "/" ++ "/".intercalate place

/-- What is on the way to a file. -/
def survey (path : String) : IO Disk := do
  let here ← IO.currentDir
  let mut disk : Disk := { here := namesOn here.toString }
  let start := if path.startsWith "/" then [] else disk.here
  let mut place : List String := []
  for name in start ++ namesOn path do
    place := if name = "." then place else if name = ".." then place.dropLast else place ++ [name]
    let there := here / absolute place
    if ← there.isDir then
      disk := { disk with directories := place :: disk.directories }
    else if ← there.pathExists then
      disk := { disk with files := disk.files ++ [(place, "")] }
  return disk

/-- Runs the command line. -/
def run (arguments : List String) : IO UInt32 := do
  let names := ["MEALIE_BASE_URL", "MEALIE_API_TOKEN", "MEALIE_USERNAME", "MEALIE_PASSWORD",
    "MEALIE_TIMEOUT_SECS"]
  let settings ← names.filterMapM fun name => do return (← IO.getEnv name).map (name, ·)
  let config := Config.ofVariables (settings.lookup ·)
  let pipes ← (← IO.getEnv "MEALIE_PIPES").mapM fun place => do
    let outgoing ← IO.FS.Handle.mk s!"{place}/to" .write
    let incoming ← IO.FS.Handle.mk s!"{place}/from" .read
    return ({ outgoing, incoming } : Pipes)
  let noise ← IO.getRandomBytes 16
  let boundary := (Uuid.ofNoise (BitVec.ofNat 128
    (noise.toList.foldl (fun n b => 256 * n + b.toNat) 0))).text
  let parts := (Text.split (· == '/') config.address.toList).map String.ofList
  let server := Server.ofAddress ("/".intercalate (parts.take 3))
    (String.join ((parts.drop 3).map ("/" ++ ·))) boundary "connection closed" []
  let host := (parts[2]?).getD ""
  let disk ← survey ((arguments[1]?).getD ".")
  let outcome ← converse (exchange pipes server host) (Cli.run config arguments disk) none
  IO.print outcome.output
  for (place, text) in outcome.disk.files.take (outcome.disk.files.length - disk.files.length) do
    IO.FS.writeFile ((← IO.currentDir) / absolute place) text
  match outcome.complaint with
  | some complaint => IO.eprintln s!"Error: {complaint}"
  | none => pure ()
  return UInt32.ofNat outcome.exitCode

end RecipeClient.Program

/-- Runs the command line. -/
def main (arguments : List String) : IO UInt32 := RecipeClient.Program.run arguments
