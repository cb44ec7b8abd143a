import RecipeClient.Json.Record

/-!
# Shopping lists

Lists of things to buy.
-/

namespace RecipeClient

open Json (Codec Entries Record Value)

/-- One thing to buy. -/
structure ListItem where
  title : Option String := none
  text : String := ""
  quantity : Double := default
  checked : Bool := false
deriving Inhabited

namespace ListItem

def record : Record ListItem where
  name := "ListItem"
  members :=
    [.optional "title" .string (·.title) fun r v => { r with title := v },
     .withDefault "text" .string "" (·.text) fun r v => { r with text := v },
     .withDefault "quantity" .double default (·.quantity) fun r v => { r with quantity := v },
     .withDefault "checked" .boolean false (·.checked) fun r v => { r with checked := v }]
  remainder := none
  blank := {}

def codec : Codec ListItem := record.codec

end ListItem

/-- What is sent to create a shopping list. -/
structure ShoppingListIn where
  name : String
  group : Option String
  items : List ListItem
deriving Inhabited

namespace ShoppingListIn

def record : Record ShoppingListIn where
  name := "ShoppingListIn"
  members :=
    [.required "name" .string (·.name) fun r v => { r with name := v },
     .optional "group" .string (·.group) fun r v => { r with group := v },
     .required "items" (ListItem.codec.list) (·.items) fun r v => { r with items := v }]
  remainder := none
  blank := default

def codec : Codec ShoppingListIn := record.codec

end ShoppingListIn

/-- A shopping list. -/
structure ShoppingListOut where
  id : Int64
  name : String
  group : Option String
  items : List ListItem
deriving Inhabited

namespace ShoppingListOut

def record : Record ShoppingListOut where
  name := "ShoppingListOut"
  members :=
    [.required "id" .integer (·.id) fun r v => { r with id := v },
     .required "name" .string (·.name) fun r v => { r with name := v },
     .optional "group" .string (·.group) fun r v => { r with group := v },
     .required "items" (ListItem.codec.list) (·.items) fun r v => { r with items := v }]
  remainder := none
  blank := default

def codec : Codec ShoppingListOut := record.codec

end ShoppingListOut

end RecipeClient
