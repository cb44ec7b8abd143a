import RecipeClient.Json.Record

/-!
# Filters

A filter selects recipes by conditions on their attributes. The server gives it in parts and
takes it as a text; `QueryFilterJSON.text` turns the parts into the text.
-/

namespace RecipeClient

open Json (Codec Entries Record Value)

/-- How a condition is joined to the one before it. -/
inductive LogicalOperator where
  /-- Both have to hold. -/
  | and
  /-- One of them has to hold. -/
  | or
deriving DecidableEq

namespace LogicalOperator

instance : Inhabited LogicalOperator := ⟨.and⟩

def name : LogicalOperator → String
  | .and => "AND"
  | .or => "OR"

def all : List LogicalOperator :=
  [.and, .or]

def codec : Codec LogicalOperator := .named all name

end LogicalOperator

/-- A relation between an attribute and a value that is named by words. -/
inductive RelationalKeyword where
  /-- The attribute has the value. -/
  | is
  /-- The attribute has another value. -/
  | isNot
  /-- The attribute is one of the values. -/
  | isIn
  /-- The attribute is none of the values. -/
  | notIn
  /-- The attribute has all of the values. -/
  | containsAll
  /-- The attribute matches the pattern. -/
  | like
  /-- The attribute does not match the pattern. -/
  | notLike
deriving DecidableEq

namespace RelationalKeyword

instance : Inhabited RelationalKeyword := ⟨.is⟩

/-- The name of a relation. -/
def name : RelationalKeyword → String
  | .is => "IS"
  | .isNot => "IS NOT"
  | .isIn => "IN"
  | .notIn => "NOT IN"
  | .containsAll => "CONTAINS ALL"
  | .like => "LIKE"
  | .notLike => "NOT LIKE"

def all : List RelationalKeyword :=
  [.is, .isNot, .isIn, .notIn, .containsAll, .like, .notLike]

def codec : Codec RelationalKeyword := .named all name

end RelationalKeyword

/-- A relation between an attribute and a value that is named by signs. -/
inductive RelationalOperator where
  /-- The attribute equals the value. -/
  | equal
  /-- The attribute differs from the value. -/
  | notEqual
  /-- The attribute is greater than the value. -/
  | greater
  /-- The attribute is less than the value. -/
  | less
  /-- The attribute is at least the value. -/
  | greaterOrEqual
  /-- The attribute is at most the value. -/
  | lessOrEqual
deriving DecidableEq

namespace RelationalOperator

instance : Inhabited RelationalOperator := ⟨.equal⟩

/-- The name of a relation. -/
def name : RelationalOperator → String
  | .equal => "="
  | .notEqual => "<>"
  | .greater => ">"
  | .less => "<"
  | .greaterOrEqual => ">="
  | .lessOrEqual => "<="

def all : List RelationalOperator :=
  [.equal, .notEqual, .greater, .less, .greaterOrEqual, .lessOrEqual]

def codec : Codec RelationalOperator := .named all name

end RelationalOperator

/-- A relation between an attribute and a value. -/
inductive Relationship where
  /-- One that is named by words. -/
  | keyword (value : RelationalKeyword)
  /-- One that is named by signs. -/
  | operator (value : RelationalOperator)
deriving DecidableEq

namespace Relationship

instance : Inhabited Relationship := ⟨.keyword .is⟩

/-- The name of a relation. -/
def name : Relationship → String
  | .keyword k => k.name
  | .operator o => o.name

/-- All relations, the ones named by words first. -/
def all : List Relationship :=
  RelationalKeyword.all.map .keyword ++ RelationalOperator.all.map .operator

/-- The relation with a name. -/
def ofName? (s : String) : Option Relationship := all.find? (·.name == s)

/-- The relation that a value gives, by its name or by an object with that one member. -/
def ofValue? : Value → Option Relationship
  | .string s => ofName? s
  | .object [(s, .null)] => ofName? s
  | _ => none

/-- Whether a relation compares with `NULL`, whatever value it is given. -/
def comparesWithNull : Relationship → Bool
  | .keyword .is => true
  | .keyword .isNot => true
  | _ => false

def codec : Codec Relationship := .alternatives "Relationship" ofValue? fun r => .string r.name

end Relationship

/-- What an attribute is compared with. -/
inductive FilterValue where
  /-- One text. -/
  | single (value : String)
  /-- Several texts. -/
  | list (values : List String)
deriving DecidableEq

namespace FilterValue

instance : Inhabited FilterValue := ⟨.single ""⟩

/-- The texts that a value gives. -/
def ofValue? (v : Value) : Option FilterValue :=
  match v with
  | .string s => some (.single s)
  | v => v.asStrings?.map .list

def codec : Codec FilterValue :=
  .alternatives "FilterValue" ofValue? fun
    | .single s => .string s
    | .list values => .array (values.map .string)

end FilterValue

/-- One condition of a filter, or a part of one. -/
structure QueryFilterJSONPart where
  /-- What is written before the condition. -/
  leftParenthesis : Option String := none
  /-- What is written after the condition. -/
  rightParenthesis : Option String := none
  logicalOperator : Option LogicalOperator := none
  attributeName : Option String := none
  relationalOperator : Option Relationship := none
  value : Option FilterValue := none
  /-- The members that are not modelled. -/
  other : Entries := []
deriving Inhabited

namespace QueryFilterJSONPart

def record : Record QueryFilterJSONPart where
  name := "QueryFilterJSONPart"
  members :=
    [.optional "leftParenthesis" .string (·.leftParenthesis)
       fun r v => { r with leftParenthesis := v },
     .optional "rightParenthesis" .string (·.rightParenthesis)
       fun r v => { r with rightParenthesis := v },
     .optional "logicalOperator" LogicalOperator.codec (·.logicalOperator)
       fun r v => { r with logicalOperator := v },
     .optional "attributeName" .string (·.attributeName) fun r v => { r with attributeName := v },
     .optional "relationalOperator" Relationship.codec (·.relationalOperator)
       fun r v => { r with relationalOperator := v },
     .optional "value" FilterValue.codec (·.value) fun r v => { r with value := v }]
  remainder := some ⟨(·.other), fun r v => { r with other := v }⟩
  blank := {}

def codec : Codec QueryFilterJSONPart := record.codec

end QueryFilterJSONPart

/-- A filter, as its parts in order. -/
structure QueryFilterJSON where
  parts : List QueryFilterJSONPart := []
deriving Inhabited

namespace QueryFilterJSON

def record : Record QueryFilterJSON where
  name := "QueryFilterJSON"
  members :=
    [.list "parts" QueryFilterJSONPart.codec (·.parts) fun r v => { r with parts := v }]
  remainder := none
  blank := {}

def codec : Codec QueryFilterJSON := record.codec

end QueryFilterJSON

/-! ## The text of a filter

The server takes a filter as a text such as `(tags.name IN ["a", "b"] AND rating > "3")`. A part
without attribute or relation is left out, and so is the operator of the first part that is
written. -/

namespace QueryFilterJSON

/-- A text between double quotes. -/
def quote (s : String) : String := "\"" ++ s ++ "\""

/-- The text of what an attribute is compared with. -/
def valueText : Option FilterValue → String
  | some (.single s) => quote s
  | some (.list values) => "[" ++ ", ".intercalate (values.map quote) ++ "]"
  | none => "NULL"

/-- The text of a condition, with its parentheses. -/
def conditionText (part : QueryFilterJSONPart) (attr : String) (relation : Relationship) :
    String :=
  part.leftParenthesis.getD "" ++ attr ++ " " ++ relation.name ++ " "
    ++ (if relation.comparesWithNull then "NULL" else valueText part.value)
    ++ part.rightParenthesis.getD ""

/-- The text of a part; `first` tells that no part is written before it. -/
def partText? (first : Bool) (part : QueryFilterJSONPart) : Option String :=
  match part.attributeName, part.relationalOperator with
  | some attr, some relation =>
    let condition := conditionText part attr relation
    match first, part.logicalOperator with
    | false, some op => some (op.name ++ " " ++ condition)
    | _, _ => some condition
  | _, _ => none

/-- The texts of the parts that are written; `first` tells that no part is written before them. -/
def partTexts : (first : Bool) → List QueryFilterJSONPart → List String
  | _, [] => []
  | first, part :: parts =>
    match partText? first part with
    | some s => s :: partTexts false parts
    | none => partTexts first parts

def text (filter : QueryFilterJSON) : String := " ".intercalate (partTexts true filter.parts)

end QueryFilterJSON

end RecipeClient
