/-!
# Forms

A form is a list of named fields, each of them a text or a file. A name may occur more than once,
and the order of the fields is kept.
-/

namespace RecipeClient

/-- A file to be sent to the server. -/
structure Upload where
  fileName : String
  /-- Its contents. -/
  bytes : List UInt8
deriving DecidableEq, Inhabited

namespace Upload

/-- The text behind the last dot of a name, the whole name if it has none. -/
def extensionOf (name : List Char) : List Char :=
  (name.reverse.takeWhile (· != '.')).reverse

/-- The text behind the last dot of the file's name, the whole name if it has none. -/
def extension (u : Upload) : String := String.ofList (extensionOf u.fileName.toList)

end Upload

/-- The contents of a form's field. -/
inductive FormValue where
  | text (value : String)
  | file (upload : Upload)
deriving DecidableEq, Inhabited

/-- A form: its fields in order, each with its name. -/
structure Form where
  fields : List (String × FormValue) := []
deriving DecidableEq, Inhabited

namespace Form

/-- The form without fields. -/
def empty : Form := {}

/-- A form with a text added at its end. -/
def text (form : Form) (name value : String) : Form :=
  ⟨form.fields ++ [(name, .text value)]⟩

/-- A form with a file added at its end. -/
def file (form : Form) (name : String) (upload : Upload) : Form :=
  ⟨form.fields ++ [(name, .file upload)]⟩

/-- A form with files added at its end, all under one name. -/
def files (form : Form) (name : String) (uploads : List Upload) : Form :=
  uploads.foldl (·.file name) form

/-- The text of a field, if it has this name and is a text. -/
def textOf? (name : String) : String × FormValue → Option String
  | (n, .text value) => if n = name then some value else none
  | (_, .file _) => none

/-- The file of a field, if it has this name and is a file. -/
def fileOf? (name : String) : String × FormValue → Option Upload
  | (_, .text _) => none
  | (n, .file upload) => if n = name then some upload else none

/-- The first text under a name. -/
def text? (form : Form) (name : String) : Option String := form.fields.findSome? (textOf? name)

/-- All files under a name, in order. -/
def filesNamed (form : Form) (name : String) : List Upload :=
  form.fields.filterMap (fileOf? name)

end Form

end RecipeClient
