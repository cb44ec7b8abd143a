import RecipeClient.Json.Record

/-!
# Pages

The server answers lists in pages.
-/

namespace RecipeClient

open Json (Codec Record)

/-- One page of a list. -/
structure Page (α : Type) where
  page : Int64
  perPage : Int64
  total : Int64
  totalPages : Int64
  items : List α
  /-- The address of the next page. -/
  next : Option String
  /-- The address of the page before. -/
  previous : Option String
deriving Inhabited

namespace Page

variable {α : Type}

def record (item : Codec α) : Record (Page α) where
  name := "PaginationData"
  members :=
    [.required "page" .integer (·.page) fun r v => { r with page := v },
     .required "per_page" .integer (·.perPage) fun r v => { r with perPage := v },
     .required "total" .integer (·.total) fun r v => { r with total := v },
     .withDefault "total_pages" .integer 0 (·.totalPages) fun r v => { r with totalPages := v },
     .required "items" item.list (·.items) fun r v => { r with items := v },
     .optional "next" .string (·.next) fun r v => { r with next := v },
     .optional "previous" .string (·.previous) fun r v => { r with previous := v }]
  remainder := none
  blank := default

def codec (item : Codec α) : Codec (Page α) := (record item).codec

end Page

end RecipeClient
