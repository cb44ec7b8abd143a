import RecipeClient.Proofs.Json.Places
import RecipeClient.Proofs.Json.Respelling
import RecipeClient.Proofs.NarrowViews

/-!
# Empty lists of recipes

A recipe has lists that its text may spell as `null`, as brackets with nothing between them, or not
at all. A text can go from one spelling to another, for any of the lists that are empty and at any
place among the members, and is read as the same recipe. Whatever else a list is spelled as has to
be a list of items that are read. The same goes for recipes that other records hold, wherever those
stand in their texts.

- `TakesEmptyLists`: what this says of the texts that a codec reads
- `empty_lists_alike`: recipes and the records that hold them
-/

namespace RecipeClient

open Json Json.Codec Json.Record

namespace Json

/-! ## Records that take every spelling -/

/-- In the texts that the codec reads, the objects at the place may spell each of the lists as empty
in every way. -/
structure TakesEmptyLists {α σ : Type} (codec : Codec α) (place : Place) (held : α → Option σ)
    (lists : List ListField) : Prop where
  /-- A record that is held stands at the place. -/
  found (text : String) (a : α) : codec.ofText text = .ok a → (held a).isSome = true →
    ∃ value, place.Holds value text.toList
  /-- An object at the place is made of its members. -/
  written (text : String) (a : α) (value : List Char) : codec.ofText text = .ok a →
    place.Holds value text.toList → Braced value → ∃ ws, SpellsObject value ws
  /-- A text with an object that spells the same lists as empty in another way is read as the same
  value. -/
  respelled (text text' : String) (a : α) (value value' : List Char) (ws vs : List WrittenMember) :
    codec.ofText text = .ok a → place.Exchanges value value' text.toList text'.toList →
    SpellsObject value ws → SpellsObject value' vs → Respelled (lists.map (·.name)) ws vs →
    SpelledOnce (lists.map (·.name)) vs → codec.ofText text' = .ok a
  /-- A list may be spelled as `null` or with items that are read, and as nothing else. -/
  refused (text : String) (value : List Char) (ws : List WrittenMember) (w : WrittenMember)
    (field : ListField) : place.Holds value text.toList → SpellsObject value ws → w ∈ ws →
    field ∈ lists → w.key = field.name → ¬ SpellsNull w.value →
    ¬ field.item.SpellsItems place.depth w.value → ∃ problem, codec.ofText text = .error problem

theorem takesEmptyLists {α σ : Type} {codec : Codec α} {place : Place} {r : Record σ}
    {held : α → Option σ} {height : Nat} (hcodec : codec.Skips)
    (hreads : codec.ReadsAt place r held) (hr : r.Lawful height)
    (hskips : ∀ m ∈ r.members, m.Skips) (hlocal : ∀ m ∈ r.members, m.Local)
    {lists : List ListField}
    (hlists : ∀ field ∈ lists, field.In r ∧ field.item.Local ∧ field.item.Skips) :
    TakesEmptyLists codec place held lists where
  found _ _ := hreads.found
  written := by
    intro text a value h hholds hbrace
    have hpassed := Place.Exchanges.passed hholds (Codec.passed_of_ofText hcodec h)
    obtain ⟨s, ⟨rest, hread⟩, -⟩ := hreads.exchanged h hholds hbrace hbrace hpassed
    obtain ⟨front, hfront⟩ := hbrace
    -- what is left behind the record is the space behind the value
    obtain ⟨after, hafter, hblank⟩ := hpassed
    obtain rfl := Except.ok.inj ((Record.skips hskips (place.depth + 2) hread).symm.trans hafter)
    exact exists_spellsObject hskips hr hfront hread hblank
  respelled := by
    intro text text' a value value' ws vs h hexchange hws hvs hrespelled honce
    obtain ⟨s, hread, hagain⟩ := hreads.exchanged h hexchange hws.braced hvs.braced hvs.passed
    apply hagain
    rw [r.reads_object_iff hskips hlocal hr hvs]
    have hmade := (r.reads_object_iff hskips hlocal hr hws).mp hread
    exact hmade.respelled hr.names (fun field hfield => (hlists field hfield).1) hrespelled honce
  refused := by
    intro text value ws w field hholds hws hw hfield hkey hnull hitems
    cases h : codec.ofText text with
    | error problem => exact ⟨problem, rfl⟩
    | ok a =>
      obtain ⟨s, hread, -⟩ := hreads.exchanged h hholds hws.braced hws.braced hws.passed
      have hmade := (reads_object_iff hskips hlocal hr hws).mp hread
      obtain ⟨⟨get, set, hlist⟩, hitem, hskip⟩ := hlists field hfield
      have hvalue := hmade.present _ hlist w.value (List.mem_map.mpr ⟨w, hw, by rw [← hkey]; rfl⟩)
      rcases Codec.spelled_of_listOrNull hitem hskip w.passed hvalue with hspelled | hspelled
      · exact absurd hspelled hnull
      · exact absurd hspelled hitems

end Json

/-! ## Recipes -/

/-- The lists of the short form of a recipe. -/
def RecipeSummary.lists : List ListField :=
  [⟨"recipeCategory", RecipeCategory.codec⟩, ⟨"tags", RecipeTag.codec⟩, ⟨"tools", RecipeTool.codec⟩]

/-- The lists of a recipe. -/
def Recipe.lists : List ListField :=
  [⟨"recipeCategory", RecipeCategory.codec⟩, ⟨"tags", RecipeTag.codec⟩, ⟨"tools", RecipeTool.codec⟩,
   ⟨"recipeIngredient", .any⟩, ⟨"recipeInstructions", .any⟩, ⟨"assets", RecipeAsset.codec⟩,
   ⟨"notes", .any⟩, ⟨"comments", RecipeComment.codec⟩]

/-! ### Values are read off their own texts -/

@[simp]
theorem RecipeCategory.local_codec : RecipeCategory.codec.Local :=
  Record.local_codec keepsUnknown.members (by simp [record]) (@lawful_record 0)

@[simp]
theorem RecipeTag.local_codec : RecipeTag.codec.Local :=
  Record.local_codec keepsUnknown.members (by simp [record]) (@lawful_record 0)

@[simp]
theorem RecipeTool.local_codec : RecipeTool.codec.Local :=
  Record.local_codec keepsUnknown.members (by simp [record]) (@lawful_record 0)

@[simp]
theorem RecipeAsset.local_codec : RecipeAsset.codec.Local :=
  Record.local_codec (by simp [record]) (by simp [record]) (@lawful_record 0)

@[simp]
theorem RecipeComment.local_codec : RecipeComment.codec.Local :=
  Record.local_codec (by simp [record]) (by simp [record]) (@lawful_record 0)

theorem RecipeSummary.members_local : ∀ m ∈ RecipeSummary.record.members, m.Local := by
  simp [record]

@[simp]
theorem RecipeSummary.local_codec : RecipeSummary.codec.Local :=
  Record.local_codec members_skip members_local (@lawful_record 0)

theorem Recipe.members_local : ∀ m ∈ Recipe.record.members, m.Local := by
  simp [record]

@[simp]
theorem Recipe.skips : Recipe.codec.Skips := Record.skips keepsUnknown.members

@[simp]
theorem Recipe.local_codec : Recipe.codec.Local :=
  Record.local_codec keepsUnknown.members members_local (@lawful_record 0)

@[simp]
theorem PlanEntryType.local_codec : PlanEntryType.codec.Local := local_named

/-! ### Records with a recipe -/

theorem RecipeSummary.lists_in :
    ∀ field ∈ lists, field.In record ∧ field.item.Local ∧ field.item.Skips := by
  simp only [lists, List.forall_mem_cons]
  refine ⟨⟨?_, by simp, by simp⟩, ⟨?_, by simp, by simp⟩, ⟨?_, by simp, by simp⟩,
    List.forall_mem_nil _⟩
  · exact ⟨_, _, List.mem_of_getElem? (i := 4) rfl⟩
  · exact ⟨_, _, List.mem_of_getElem? (i := 5) rfl⟩
  · exact ⟨_, _, List.mem_of_getElem? (i := 6) rfl⟩

theorem Recipe.lists_in :
    ∀ field ∈ lists, field.In record ∧ field.item.Local ∧ field.item.Skips := by
  simp only [lists, List.forall_mem_cons]
  refine ⟨⟨?_, by simp, by simp⟩, ⟨?_, by simp, by simp⟩, ⟨?_, by simp, by simp⟩,
    ⟨?_, by simp, by simp⟩, ⟨?_, by simp, by simp⟩, ⟨?_, by simp, by simp⟩, ⟨?_, by simp, by simp⟩,
    ⟨?_, by simp, by simp⟩, List.forall_mem_nil _⟩
  · exact ⟨_, _, List.mem_of_getElem? (i := 15) rfl⟩
  · exact ⟨_, _, List.mem_of_getElem? (i := 16) rfl⟩
  · exact ⟨_, _, List.mem_of_getElem? (i := 17) rfl⟩
  · exact ⟨_, _, List.mem_of_getElem? (i := 25) rfl⟩
  · exact ⟨_, _, List.mem_of_getElem? (i := 26) rfl⟩
  · exact ⟨_, _, List.mem_of_getElem? (i := 29) rfl⟩
  · exact ⟨_, _, List.mem_of_getElem? (i := 30) rfl⟩
  · exact ⟨_, _, List.mem_of_getElem? (i := 31) rfl⟩

/-- The texts that have a short form at a place may spell its lists as empty in every way. -/
theorem RecipeSummary.takesEmptyLists {α : Type} {codec : Codec α} {place : Place}
    {held : α → Option RecipeSummary} (hcodec : codec.Skips)
    (h : codec.ReadsAt place RecipeSummary.record held) :
    TakesEmptyLists codec place held RecipeSummary.lists :=
  Json.takesEmptyLists hcodec h (@lawful_record 0) members_skip members_local lists_in

/-- The texts that have a recipe at a place may spell its lists as empty in every way. -/
theorem Recipe.takesEmptyLists {α : Type} {codec : Codec α} {place : Place}
    {held : α → Option Recipe} (hcodec : codec.Skips)
    (h : codec.ReadsAt place Recipe.record held) :
    TakesEmptyLists codec place held Recipe.lists :=
  Json.takesEmptyLists hcodec h (@lawful_record 0) keepsUnknown.members members_local lists_in

/-- The lists of a recipe may be spelled as empty in every way: where the text is a recipe or its
short form, and where it is a plan entry, a recipe of a household, a suggestion or a shared link
that holds one. -/
theorem empty_lists_alike :
    TakesEmptyLists Recipe.codec .whole some Recipe.lists ∧
    TakesEmptyLists RecipeSummary.codec .whole some RecipeSummary.lists ∧
    TakesEmptyLists ReadPlanEntry.codec (.within "recipe" 9) (·.recipe) RecipeSummary.lists ∧
    TakesEmptyLists HouseholdRecipeSummary.codec (.within "recipe" 2) (·.recipe)
      RecipeSummary.lists ∧
    TakesEmptyLists RecipeSuggestionResponseItem.codec (.within "recipe" 0)
      (fun item => some item.recipe) RecipeSummary.lists ∧
    TakesEmptyLists RecipeShareToken.codec (.within "recipe" 6) (·.recipe) Recipe.lists := by
  refine ⟨?recipe, ?summary, ?entry, ?household, ?suggestion, ?link⟩
  case recipe => exact Recipe.takesEmptyLists Recipe.skips (readsAt_whole Recipe.skips)
  case summary =>
    exact RecipeSummary.takesEmptyLists RecipeSummary.skips (readsAt_whole RecipeSummary.skips)
  case entry =>
    have hskips : ∀ m ∈ ReadPlanEntry.record.members, m.Skips := by simp [ReadPlanEntry.record]
    have hlocal : ∀ m ∈ ReadPlanEntry.record.members, m.Local := by simp [ReadPlanEntry.record]
    exact RecipeSummary.takesEmptyLists (Record.skips hskips)
      (readsAt_within (@ReadPlanEntry.lawful_record 0) hskips hlocal rfl rfl
        Member.carries_optional)
  case household =>
    have hskips : ∀ m ∈ HouseholdRecipeSummary.record.members, m.Skips := by
      simp [HouseholdRecipeSummary.record]
    have hlocal : ∀ m ∈ HouseholdRecipeSummary.record.members, m.Local := by
      simp [HouseholdRecipeSummary.record]
    exact RecipeSummary.takesEmptyLists (Record.skips hskips)
      (readsAt_within (@HouseholdRecipeSummary.lawful_record 0) hskips hlocal rfl rfl
        Member.carries_optional)
  case suggestion =>
    have hskips : ∀ m ∈ RecipeSuggestionResponseItem.record.members, m.Skips := by
      simp [RecipeSuggestionResponseItem.record]
    have hlocal : ∀ m ∈ RecipeSuggestionResponseItem.record.members, m.Local := by
      simp [RecipeSuggestionResponseItem.record]
    exact RecipeSummary.takesEmptyLists (Record.skips hskips)
      (readsAt_within (@RecipeSuggestionResponseItem.lawful_record 0) hskips hlocal rfl rfl
        Member.carries_required)
  case link =>
    have hskips : ∀ m ∈ RecipeShareToken.record.members, m.Skips := by
      simp [RecipeShareToken.record]
    have hlocal : ∀ m ∈ RecipeShareToken.record.members, m.Local := by
      simp [RecipeShareToken.record]
    exact Recipe.takesEmptyLists (Record.skips hskips)
      (readsAt_within (@RecipeShareToken.lawful_record 0) hskips hlocal rfl rfl
        Member.carries_optional)

/-- A recipe goes on without tags: their key is written in another way and moved, and empty notes
come where none were. A suggestion may be given as a list, and an object is no list of tags. -/
theorem empty_lists_alike_soup :
    let soup := "\x7b\"slug\": \"soup\",\"tags\":null\x7d"
    let respelled := "\x7b \"t\\u0061gs\": [ ] ,\"slug\": \"soup\",\"notes\" :null \x7d"
    let suggested := "[\x7b\"tags\":null\x7d, [1]]"
    let again := "[\x7b \"t\\u0061gs\": [ ] \x7d, [1]]"
    let wrong := "\x7b\"tags\":\x7b\x7d\x7d"
    (∃ recipe, Recipe.codec.ofText soup = .ok recipe ∧
      Recipe.codec.ofText respelled = .ok recipe) ∧
    (∃ item, RecipeSuggestionResponseItem.codec.ofText suggested = .ok item ∧
      RecipeSuggestionResponseItem.codec.ofText again = .ok item) ∧
    ∃ problem, Recipe.codec.ofText wrong = .error problem := by
  intro soup respelled suggested again wrong
  obtain ⟨hrecipe, -, -, -, hsuggestion, -⟩ := empty_lists_alike
  have hspace : Blank [' '] := by simp [Blank, isSpace]
  let slug : WrittenMember :=
    { label := "\"slug\":".toList, key := "slug", labelled := by rfl
      value := " \"soup\"".toList, passed := ⟨[], by rfl, blank_nil⟩ }
  let tags : WrittenMember :=
    { label := "\"tags\":".toList, key := "tags", labelled := by rfl
      value := "null".toList, passed := ⟨[], by rfl, blank_nil⟩ }
  let noTags : WrittenMember :=
    { label := " \"t\\u0061gs\":".toList, key := "tags"
      labelled := ok_of_toOption (by decide +kernel)
      value := " [ ] ".toList, passed := ⟨[' '], by rfl, by simp [Blank, isSpace]⟩ }
  let noNotes : WrittenMember :=
    { label := "\"notes\" :".toList, key := "notes", labelled := by rfl
      value := "null ".toList, passed := ⟨[' '], by rfl, by simp [Blank, isSpace]⟩ }
  have htags : SpellsEmpty tags.value := Or.inl ⟨[], [], rfl, blank_nil, blank_nil⟩
  have hnoTags : SpellsEmpty noTags.value :=
    Or.inr ⟨[' '], [' '], [' '], rfl, hspace, hspace, hspace⟩
  have hnoNotes : SpellsEmpty noNotes.value := Or.inl ⟨[], [' '], rfl, blank_nil, hspace⟩
  refine ⟨?recipe, ?item, ?wrong⟩
  case recipe =>
    have hread : (Recipe.codec.ofText soup).toOption.isSome = true := by decide +kernel
    obtain ⟨recipe, hread⟩ := Option.isSome_iff_exists.mp hread
    have hold : SpellsObject soup.toList [slug, tags] :=
      ⟨[], [], [], by decide +kernel, blank_nil, blank_nil, blank_nil⟩
    have hnew : SpellsObject respelled.toList [noTags, slug, noNotes] :=
      ⟨[], [], [], by decide +kernel, blank_nil, blank_nil, blank_nil⟩
    have honce : SpelledOnce (Recipe.lists.map (·.name)) [noTags, slug, noNotes] := by
      simp [SpelledOnce, Recipe.lists, noTags, slug, noNotes]
    have hrespelled :
        Respelled (Recipe.lists.map (·.name)) [slug, tags] [noTags, slug, noNotes] := by
      refine .added ⟨?_, hnoTags⟩ (.kept slug (.dropped ⟨?_, htags⟩ (.added ⟨?_, hnoNotes⟩ .nil)))
        <;> simp [Recipe.lists, noTags, tags, noNotes]
    exact ⟨recipe, ok_of_toOption hread, hrecipe.respelled soup respelled recipe _ _ _ _
      (ok_of_toOption hread) (.whole _ _) hold hnew hrespelled honce⟩
  case item =>
    have hread : (RecipeSuggestionResponseItem.codec.ofText suggested).toOption.isSome = true := by
      decide +kernel
    obtain ⟨item, hread⟩ := Option.isSome_iff_exists.mp hread
    let foods : WrittenValue := ⟨" [1]".toList, [], by rfl, blank_nil⟩
    let first : WrittenValue := ⟨"\x7b\"tags\":null\x7d".toList, [], by rfl, blank_nil⟩
    let second : WrittenValue :=
      ⟨"\x7b \"t\\u0061gs\": [ ] \x7d".toList, [], ok_of_toOption (by decide +kernel), blank_nil⟩
    have hold : SpellsList suggested.toList ([] ++ first :: [foods]) :=
      ⟨[], [], [], by decide +kernel, blank_nil, blank_nil, blank_nil⟩
    have hnew : SpellsList again.toList ([] ++ second :: [foods]) :=
      ⟨[], [], [], by decide +kernel, blank_nil, blank_nil, blank_nil⟩
    have hfirst : SpellsObject first.value [tags] :=
      ⟨[], [], [], by decide +kernel, blank_nil, blank_nil, blank_nil⟩
    have hsecond : SpellsObject second.value [noTags] :=
      ⟨[], [], [], by decide +kernel, blank_nil, blank_nil, blank_nil⟩
    have honce : SpelledOnce (RecipeSummary.lists.map (·.name)) [noTags] := by
      simp [SpelledOnce, RecipeSummary.lists, noTags]
    have hrespelled : Respelled (RecipeSummary.lists.map (·.name)) [tags] [noTags] := by
      refine .added ⟨?_, hnoTags⟩ (.dropped ⟨?_, htags⟩ .nil)
        <;> simp [RecipeSummary.lists, noTags, tags]
    exact ⟨item, ok_of_toOption hread, hsuggestion.respelled suggested again item _ _ _ _
      (ok_of_toOption hread) (.item hold hnew rfl) hfirst hsecond hrespelled honce⟩
  case wrong =>
    let object : WrittenMember :=
      { label := "\"tags\":".toList, key := "tags", labelled := by rfl
        value := "\x7b\x7d".toList, passed := ⟨[], by rfl, blank_nil⟩ }
    have hwrong : SpellsObject wrong.toList [object] :=
      ⟨[], [], [], by decide +kernel, blank_nil, blank_nil, blank_nil⟩
    refine hrecipe.refused wrong _ [object] object ⟨"tags", RecipeTag.codec⟩ (.whole _ _) hwrong
      (List.mem_singleton_self _) (by simp [Recipe.lists]) rfl ?_ ?_
    · intro hnull
      exact absurd hnull.head? (by decide)
    · rintro ⟨ws, hlist, -⟩
      exact absurd hlist.head? (by decide)

end RecipeClient
