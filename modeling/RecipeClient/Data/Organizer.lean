import RecipeClient.Json.Record

/-!
# Organizers

Categories, tags and kitchen tools, which recipes are filed under. The client sends them back
after editing, so each keeps the members that it does not model.
-/

namespace RecipeClient

open Json (Codec Entries Record Value)

/-- A category of recipes. -/
structure RecipeCategory where
  id : Option String := none
  name : String := ""
  slug : String := ""
  /-- The members that are not modelled. -/
  other : Entries := []
deriving Inhabited

namespace RecipeCategory

def record : Record RecipeCategory where
  name := "RecipeCategory"
  members :=
    [.optional "id" .string (·.id) fun r v => { r with id := v },
     .required "name" .string (·.name) fun r v => { r with name := v },
     .required "slug" .string (·.slug) fun r v => { r with slug := v }]
  remainder := some ⟨(·.other), fun r v => { r with other := v }⟩
  blank := {}

def codec : Codec RecipeCategory := record.codec

end RecipeCategory

/-- A tag of recipes. -/
structure RecipeTag where
  id : Option String := none
  name : String := ""
  slug : String := ""
  /-- The members that are not modelled. -/
  other : Entries := []
deriving Inhabited

namespace RecipeTag

def record : Record RecipeTag where
  name := "RecipeTag"
  members :=
    [.optional "id" .string (·.id) fun r v => { r with id := v },
     .required "name" .string (·.name) fun r v => { r with name := v },
     .required "slug" .string (·.slug) fun r v => { r with slug := v }]
  remainder := some ⟨(·.other), fun r v => { r with other := v }⟩
  blank := {}

def codec : Codec RecipeTag := record.codec

end RecipeTag

/-- A kitchen tool that recipes need. -/
structure RecipeTool where
  id : String := ""
  name : String := ""
  slug : String := ""
  /-- The households that own the tool. -/
  householdsWithTool : List String := []
  /-- The members that are not modelled. -/
  other : Entries := []
deriving Inhabited

namespace RecipeTool

def record : Record RecipeTool where
  name := "RecipeTool"
  members :=
    [.withDefault "id" .string "" (·.id) fun r v => { r with id := v },
     .required "name" .string (·.name) fun r v => { r with name := v },
     .withDefault "slug" .string "" (·.slug) fun r v => { r with slug := v },
     .listOmitted "householdsWithTool" .string (·.householdsWithTool)
       fun r v => { r with householdsWithTool := v }]
  remainder := some ⟨(·.other), fun r v => { r with other := v }⟩
  blank := {}

def codec : Codec RecipeTool := record.codec

end RecipeTool

/-- What is sent to create a kitchen tool. -/
structure RecipeToolCreate where
  name : String := ""
  householdsWithTool : List String := []
deriving Inhabited

namespace RecipeToolCreate

def record : Record RecipeToolCreate where
  name := "RecipeToolCreate"
  members :=
    [.required "name" .string (·.name) fun r v => { r with name := v },
     .list "householdsWithTool" .string (·.householdsWithTool)
       fun r v => { r with householdsWithTool := v }]
  remainder := none
  blank := {}

def codec : Codec RecipeToolCreate := record.codec

end RecipeToolCreate

/-- What is sent to create a tool like this one: its name and the households that own it. -/
def RecipeTool.toCreate (tool : RecipeTool) : RecipeToolCreate :=
  { name := tool.name, householdsWithTool := tool.householdsWithTool }

end RecipeClient
