import RecipeClient.Exchange.Form
import RecipeClient.Exchange.Query
import RecipeClient.Json.Codec

/-!
# Requests

What the client asks of the server: a method, a path with its query, a body, and a limit on the
time that the server may take.
-/

namespace RecipeClient

open Json (Codec Value)

/-- What a request does. -/
inductive Method where
  /-- Reads. -/
  | get
  /-- Creates, or starts something. -/
  | post
  /-- Replaces. -/
  | put
  /-- Changes a part. -/
  | patch
  /-- Removes. -/
  | delete
deriving DecidableEq, Inhabited

namespace Method

def all : List Method := [.get, .post, .put, .patch, .delete]

/-- The name under which a method is sent. -/
def name : Method → String
  | .get => "GET"
  | .post => "POST"
  | .put => "PUT"
  | .patch => "PATCH"
  | .delete => "DELETE"

def ofName? (name : String) : Option Method := all.find? (·.name == name)

end Method

/-- What a request carries. -/
inductive Body where
  /-- Nothing. -/
  | empty
  | json (value : Value)
  /-- A form, sent in parts. -/
  | form (form : Form)
  /-- Pairs, sent in one line like a query. -/
  | pairs (pairs : Query)
deriving Inhabited

/-- A request. -/
structure Request where
  /-- What it does. -/
  method : Method
  /-- The path on the server, with the query. -/
  path : String
  /-- What it carries. -/
  body : Body := .empty
  /-- The limit on its time in milliseconds, where it differs from the client's. -/
  timeout : Option Nat := none
deriving Inhabited

namespace Request

/-- A request that reads. -/
def get (path : String) : Request := ⟨.get, path, .empty, none⟩

/-- A request that removes. -/
def delete (path : String) : Request := ⟨.delete, path, .empty, none⟩

/-- A request that carries a JSON value. -/
def json (method : Method) (path : String) (value : Value) : Request :=
  ⟨method, path, .json value, none⟩

/-- A request that carries the JSON form of a value. -/
def carrying {α : Type} (method : Method) (path : String) (codec : Codec α) (a : α) : Request :=
  json method path (codec.toValue a)

/-- A request that carries a form. -/
def form (method : Method) (path : String) (form : Form) (timeout : Option Nat) : Request :=
  ⟨method, path, .form form, timeout⟩

/-- A request that carries parameters as pairs. -/
def posting (path : String) (parameters : Value) : Except BadParameters Request :=
  (Query.ofParameters parameters).map fun pairs => ⟨.post, path, .pairs pairs, none⟩

/-- A request that reads what parameters select. -/
def selecting (path : String) (parameters : Value) : Except BadParameters Request :=
  (Query.withParameters path parameters).map get

end Request

end RecipeClient
