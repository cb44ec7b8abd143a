import RecipeClient.Exchange.Request
import RecipeClient.Wire.Target

/-!
# Messages

A request as it goes to the server: the target, the token, and the body in bytes with the name of
its format. JSON is written without spaces. Pairs are written like a query, but with a plus sign
for a space. A form is written in parts with a boundary between them.
-/

namespace RecipeClient.Wire

open Text.Percent (encodeByte isAsciiAlphanumeric utf8)

/-- A request as it goes to the server. -/
structure Message where
  /-- What it does. -/
  method : Method
  /-- What it asks for. -/
  target : String
  /-- What shows that the user may ask. -/
  authorization : Option String
  /-- The format of the body. -/
  contentType : Option String
  body : List UInt8

/-- The bytes of a text. -/
def bytes (s : String) : List UInt8 := utf8 s.toList

/-! ## Pairs -/

/-- Whether a character stands for itself in a body of pairs. -/
def standsInPairs (c : Char) : Bool :=
  isAsciiAlphanumeric c || c == '*' || c == '-' || c == '.' || c == '_'

/-- A text in a body of pairs. -/
def pairChars (s : String) : List Char :=
  (utf8 s.toList).flatMap fun b => if b = 0x20 then ['+'] else encodeByte standsInPairs b

/-- The pairs with `&` between them. -/
def pairsText (pairs : Query) : List Char :=
  List.intercalate ['&'] (pairs.map fun p => pairChars p.1 ++ '=' :: pairChars p.2)

/-! ## Forms -/

/-- Whether a character stands for itself in the name of a field. -/
def standsInName (c : Char) : Bool := standsInPath c && c != '/' && c != '%'

/-- The name of a field in the head of its part. It is escaped and marked as escaped, unless it is
a single byte: then it is escaped only. -/
def nameText (name : String) : List Char :=
  let encoded := escape standsInName name.toList
  if encoded = name.toList ∨ name.utf8ByteSize = 1 then
    "name=\"".toList ++ encoded ++ ['"']
  else "name*=utf-8''".toList ++ encoded

/-- A character in the name of a file: a backslash stands before what might end the name. -/
def fileNameChar (c : Char) : List Char :=
  if c == '\\' || c == '"' || c == '\r' || c == '\n' then ['\\', c] else [c]

/-- The head of the part of a field. -/
def head (name : String) : FormValue → List Char
  | .text _ => "Content-Disposition: form-data; ".toList ++ nameText name
  | .file upload =>
    "Content-Disposition: form-data; ".toList ++ nameText name ++ "; filename=\"".toList ++
      upload.fileName.toList.flatMap fileNameChar ++ ['"']

/-- What a field holds, in bytes. -/
def contents : FormValue → List UInt8
  | .text value => bytes value
  | .file upload => upload.bytes

/-- The part of a field, with the boundary before it. -/
def part (boundary : String) (field : String × FormValue) : List UInt8 :=
  bytes s!"--{boundary}\r\n" ++ utf8 (head field.1 field.2) ++ bytes "\r\n\r\n" ++
    contents field.2 ++ bytes "\r\n"

/-- A form with a boundary between its parts; a form without fields has no bytes. -/
def formBytes (boundary : String) (form : Form) : List UInt8 :=
  if form.fields.isEmpty then []
  else form.fields.flatMap (part boundary) ++ bytes s!"--{boundary}--\r\n"

/-! ## Bodies and tokens -/

/-- The name of the format of a body. -/
def format (boundary : String) : Body → Option String
  | .empty => none
  | .json _ => some "application/json"
  | .form _ => some s!"multipart/form-data; boundary={boundary}"
  | .pairs _ => some "application/x-www-form-urlencoded"

def bodyBytes (boundary : String) : Body → List UInt8
  | .empty => []
  | .json value => bytes value.canonical.text
  | .form form => formBytes boundary form
  | .pairs pairs => utf8 (pairsText pairs)

/-- Whether a text can stand in the head of a message: it holds no control character other than
a tab. -/
def standsInHead (s : String) : Bool := s.toList.all fun c => c == '\t' || !isControl c

/-- The message for a request under a token, to the server's name with a text behind it; none if
the token or the path cannot stand in a message. -/
def Message.of? (behind boundary : String) (token : Option String) (request : Request) :
    Option Message := do
  let target ← target? (behind ++ request.path).toList
  if token.any fun t => !standsInHead t then none
  return {
    method := request.method
    target
    authorization := token.map ("Bearer " ++ ·)
    contentType := format boundary request.body
    body := bodyBytes boundary request.body }

end RecipeClient.Wire
