import RecipeClient.Proofs.Calls
import RecipeClient.Proofs.Editing
import RecipeClient.Proofs.Json.TakenRecords
import RecipeClient.Proofs.Json.TextAgreement
import RecipeClient.Proofs.Rewriting

/-!
# Recipes sent back as they came

A recipe holds five lists of records. When a recipe that was read is sent back untouched, each list
that the server answered is sent with as many elements, and each element that was an object is sent
as an object, at its place. It has every modelled member that it came with, with the same value.
Categories, tags and tools have their other members as well; assets and comments have no place for
those, and are sent without them.

- `RecipeList`: the lists of records within a recipe
- `RecipeList.SentBack`: how an object in a list is sent back
- `RecipeList.sends_back`: how the lists of a recipe are sent back
-/

namespace RecipeClient

open Json Json.Record

/-! ## Reading and taking -/

@[simp]
theorem RecipeCategory.agrees : RecipeCategory.codec.Agrees :=
  Record.agrees (by decide) (by simp [record])

@[simp]
theorem RecipeTag.agrees : RecipeTag.codec.Agrees :=
  Record.agrees (by decide) (by simp [record])

@[simp]
theorem RecipeTool.agrees : RecipeTool.codec.Agrees :=
  Record.agrees (by decide) (by simp [record])

@[simp]
theorem RecipeAsset.agrees : RecipeAsset.codec.Agrees :=
  Record.agrees (by decide) (by simp [record])

@[simp]
theorem RecipeComment.agrees : RecipeComment.codec.Agrees :=
  Record.agrees (by decide) (by simp [record])

theorem Recipe.agrees : Recipe.codec.Agrees :=
  Record.agrees (by decide) (by simp [record])

/-- A recipe that is read from an answer is taken from the object in it. -/
theorem Recipe.ofEntries?_of_reading {status : Status} {body : String} {request : Request}
    {recipe : Recipe} {entries : Entries}
    (hread : (Reply.answer status body).reading Recipe.codec request = .ok recipe)
    (hbody : Value.ofText body = .ok (.object entries)) :
    Recipe.record.ofEntries? entries = some recipe := by
  obtain ⟨_, _, hanswer, htext⟩ := Reply.ofText_of_reading hread
  obtain ⟨rfl, rfl⟩ := Reply.answer.inj hanswer
  unfold Reply.meaning at htext
  split at htext
  · -- a blank body stands for `null`, which is no recipe
    exact absurd htext nofun
  · exact Recipe.agrees.ofText htext hbody

/-! ## Taking and sending -/

theorem RecipeCategory.exact_members : ∀ m ∈ RecipeCategory.record.members, m.Exact := by
  simp [record]

theorem RecipeTag.exact_members : ∀ m ∈ RecipeTag.record.members, m.Exact := by
  simp [record]

theorem RecipeTool.exact_members : ∀ m ∈ RecipeTool.record.members, m.Exact := by
  simp [record]

theorem RecipeAsset.exact_members : ∀ m ∈ RecipeAsset.record.members, m.Exact := by
  simp [record]

theorem RecipeComment.exact_members : ∀ m ∈ RecipeComment.record.members, m.Exact := by
  simp [record]

theorem RecipeAsset.omitsOnlyHouseholds : RecipeAsset.record.OmitsOnlyHouseholds := by
  simp [OmitsOnlyHouseholds, record, Member.optional, Member.required]

theorem RecipeComment.omitsOnlyHouseholds : RecipeComment.record.OmitsOnlyHouseholds := by
  simp [OmitsOnlyHouseholds, record, Member.optional, Member.required]

/-! ## Lists of records -/

/-- A list of records within a recipe. -/
inductive RecipeList where
  | categories
  | tags
  | tools
  | assets
  | comments
deriving DecidableEq

namespace RecipeList

def Element : RecipeList → Type
  | categories => RecipeCategory
  | tags => RecipeTag
  | tools => RecipeTool
  | assets => RecipeAsset
  | comments => RecipeComment

/-- The description of the elements. -/
def record : (l : RecipeList) → Record l.Element
  | categories => RecipeCategory.record
  | tags => RecipeTag.record
  | tools => RecipeTool.record
  | assets => RecipeAsset.record
  | comments => RecipeComment.record

/-- The name of the list in a recipe. -/
def name : RecipeList → String
  | categories => "recipeCategory"
  | tags => "tags"
  | tools => "tools"
  | assets => "assets"
  | comments => "comments"

/-- Whether the elements have a place for members that are not modelled. -/
def keepsUnknown : RecipeList → Bool
  | categories => true
  | tags => true
  | tools => true
  | assets => false
  | comments => false

variable (l : RecipeList)

theorem isSome_remainder : l.record.remainder.isSome = l.keepsUnknown := by
  cases l <;> rfl

/-- The list is a member of a recipe. -/
theorem exists_member : ∃ get set,
    Member.listOrNull l.name l.record.codec get set ∈ Recipe.record.members := by
  cases l with
  | categories => exact ⟨_, _, List.mem_of_getElem? (i := 15) rfl⟩
  | tags => exact ⟨_, _, List.mem_of_getElem? (i := 16) rfl⟩
  | tools => exact ⟨_, _, List.mem_of_getElem? (i := 17) rfl⟩
  | assets => exact ⟨_, _, List.mem_of_getElem? (i := 29) rfl⟩
  | comments => exact ⟨_, _, List.mem_of_getElem? (i := 31) rfl⟩

theorem lawful : l.record.Lawful 1 := by
  cases l with
  | categories => exact RecipeCategory.lawful_record
  | tags => exact RecipeTag.lawful_record
  | tools => exact RecipeTool.lawful_record
  | assets => exact RecipeAsset.lawful_record
  | comments => exact RecipeComment.lawful_record

/-- The members of an element are sent as they were taken. -/
theorem exact_members : ∀ m ∈ l.record.members, m.Exact := by
  cases l with
  | categories => exact RecipeCategory.exact_members
  | tags => exact RecipeTag.exact_members
  | tools => exact RecipeTool.exact_members
  | assets => exact RecipeAsset.exact_members
  | comments => exact RecipeComment.exact_members

theorem omitsOnlyHouseholds : l.record.OmitsOnlyHouseholds := by
  cases l with
  | categories => exact RecipeCategory.omitsOnlyHouseholds
  | tags => exact RecipeTag.omitsOnlyHouseholds
  | tools => exact RecipeTool.omitsOnlyHouseholds
  | assets => exact RecipeAsset.omitsOnlyHouseholds
  | comments => exact RecipeComment.omitsOnlyHouseholds

/-- Only tools have households. -/
theorem eq_tools_of_knows (h : l.record.knows "householdsWithTool" = true) : l = .tools := by
  revert h
  cases l <;> decide

/-! ## Elements -/

/-- How an object in the list is sent back. -/
structure SentBack (original kept : Entries) : Prop where
  /-- What the element has a place for is sent with its value, except that a tool without
  households does not list them. -/
  members : ∀ key v, original.get? key = some v →
    l.keepsUnknown = true ∨ l.record.knows key = true →
      kept.get? key = some v ∨
        (l = .tools ∧ key = "householdsWithTool" ∧ v = .array [] ∧ kept.get? key = none)
  /-- What the element has no place for is not sent. -/
  lost : l.keepsUnknown = false → ∀ key, l.record.knows key = false → kept.get? key = none

/-- How an element of the list is sent back: one that is an object comes back as an object. -/
def ElementSentBack (v w : Value) : Prop :=
  ∀ original, v = .object original → ∃ kept, w = .object kept ∧ l.SentBack original kept

theorem sentBack_of_ofEntries? {original : Entries} {a : l.Element}
    (hcanonical : (Value.object original).canonical = .object original)
    (h : l.record.ofEntries? original = some a) : l.SentBack original (l.record.sent a) := by
  constructor
  · intro key v hv hplace
    have hvalue := Entries.canonical_of_get? hcanonical hv
    cases hkey : l.record.knows key with
    | true =>
      obtain ⟨m, hm, hname⟩ := List.any_eq_true.mp hkey
      obtain rfl := eq_of_beq hname
      obtain ⟨hwritten, hsent⟩ := Record.get?_sent_of_taken l.lawful h hm (l.exact_members m hm) hv
      rw [hvalue] at hwritten hsent
      by_cases homits : m.omits (m.get a) = true
      · obtain ⟨hhouseholds, hempty⟩ := (l.omitsOnlyHouseholds m hm _).mp homits
        rw [if_pos homits] at hsent
        rw [Codec.toValue, hempty] at hwritten
        rw [hhouseholds] at hkey
        exact Or.inr ⟨l.eq_tools_of_knows hkey, hhouseholds, hwritten.symm, hsent⟩
      · rw [if_neg homits] at hsent
        exact Or.inl hsent
    | false =>
      have hkeeps : l.keepsUnknown = true := by simpa [hkey] using hplace
      have hsent := Record.get?_sent_of_untaken l.lawful h hkey
      rw [l.isSome_remainder, if_pos hkeeps, hv, Option.map_some, hvalue] at hsent
      exact Or.inl hsent
  · intro hcloses key hkey
    rw [Record.get?_sent_of_untaken l.lawful h hkey, l.isSome_remainder, hcloses]
    rfl

theorem exists_kept_of_singleton {l : RecipeList} {original : Entries} {elements : List Value}
    (h : List.Forall₂ l.ElementSentBack [.object original] elements) :
    ∃ kept, elements = [.object kept] ∧ l.SentBack original kept := by
  obtain ⟨w, others, hw, hothers, rfl⟩ := List.forall₂_cons_left_iff.mp h
  obtain rfl := List.forall₂_nil_left_iff.mp hothers
  obtain ⟨kept, rfl, hkept⟩ := hw original rfl
  exact ⟨kept, rfl, hkept⟩

/-! ## Recipes -/

/-- A list of a recipe is sent back element by element. -/
theorem sentBack_of_get? {entries : Entries} {recipe : Recipe}
    (hcanonical : (Value.object entries).canonical = .object entries)
    (h : Recipe.record.ofEntries? entries = some recipe) {originals : List Value}
    (horiginals : entries.get? l.name = some (.array originals)) :
    ∃ elements, (Recipe.record.sent recipe).get? l.name = some (.array elements) ∧
      List.Forall₂ l.ElementSentBack originals elements := by
  have hlawful : Recipe.record.Lawful 3 := Recipe.lawful_record
  obtain ⟨get, set, hm⟩ := l.exists_member
  have htaken := (Record.taken_of_ofEntries? hlawful h _ hm).of_some horiginals
  obtain ⟨_, hsome, hget⟩ := Option.map_eq_some_iff.mp htaken
  obtain ⟨elements, helements, rfl⟩ := Option.map_eq_some_iff.mp hsome
  replace hget : elements = get recipe := hget
  have hsent := Record.get?_sent_of_mem hlawful.names
    (Record.unknown_of_ofEntries? hlawful h) hm
  replace hsent : (Recipe.record.sent recipe).get? l.name =
      some (l.record.codec.list.toValue (get recipe)) := hsent
  rw [← hget, Codec.toValue_list] at hsent
  refine ⟨_, hsent, ?_⟩
  have hitems := Value.canonical_of_mem (Entries.canonical_of_get? hcanonical horiginals)
  apply List.forall₂_map_right_iff.mpr
  refine ((List.forall₂_and_left _ _).mpr ⟨hitems, forall₂_of_mapM helements⟩).imp ?_
  rintro v a ⟨hv, htake⟩ original rfl
  exact ⟨_, l.record.toValue_eq a, l.sentBack_of_ofEntries? hv htake⟩

theorem request_read (slug : String) :
    (Operation.read (.collection .recipes) slug).request = .ok (.get (Path.recipe slug)) := rfl

variable {σ : Type} {line : Line σ} {state : σ}

/-- A recipe that the server answers and that is sent back untouched keeps the elements of its
lists at their places, each with all that the element has a place for. -/
theorem sends_back {slug : String} {status : Status} {body : String} {entries : Entries}
    {recipe : Recipe}
    (hreply : (line.reply (.get (Path.recipe slug)) state).1 = .answer status body)
    (hbody : Value.ofText body = .ok (.object entries))
    (hread : ((Operation.read (.collection .recipes) slug).perform.run line state).1 = .ok recipe)
    (id : String) :
    ∃ sent : Entries, (Operation.replace .recipes id recipe).request =
        .ok (.json .put (Path.recipe id) (.object sent)) ∧
      ∀ (l : RecipeList) (originals : List Value), entries.get? l.name = some (.array originals) →
        ∃ elements, sent.get? l.name = some (.array elements) ∧
          List.Forall₂ l.ElementSentBack originals elements := by
  rw [Operation.run_perform (request_read slug), hreply] at hread
  have htaken := Recipe.ofEntries?_of_reading hread hbody
  exact ⟨Recipe.record.sent recipe, rfl, fun l _ horiginals =>
    l.sentBack_of_get? (Value.canonical_of_ofText hbody) htaken horiginals⟩

/-- A line that gives one answer to all requests. -/
def answering (body : String) : Line Unit where
  reply _ _ := (.answer .okay body, ())
  bear _ _ := ()

/-- A recipe is read from an answer that begins with a visible character. -/
theorem run_answering (slug : String) {c : Char} {cs : List Char}
    (hc : Text.isBlank c = false) {recipe : Recipe}
    (h : Recipe.codec.ofText (String.ofList (c :: cs)) = .ok recipe) :
    ((Operation.read (.collection .recipes) slug).perform.run
      (answering (String.ofList (c :: cs))) ()).1 = .ok recipe := by
  have hcodec : (Operation.read (.collection .recipes) slug).codec = Recipe.codec := rfl
  rw [Operation.run_perform (request_read slug), hcodec]
  dsimp only
  apply Reply.reading_answer
  rw [Reply.meaning, Text.isAllBlank, String.toList_ofList, List.all_cons, hc, Bool.false_and]
  exact h

/-- A tool without households is sent back with its unknown member. -/
theorem sends_back_pot :
    let body := "\x7b\"tools\":[\x7b\"name\":\"Pot\",\"householdsWithTool\":[],\"owner\":1\x7d]\x7d"
    let pot : Entries :=
      [("householdsWithTool", .array []), ("name", .string "Pot"), ("owner", .number (.integer 1))]
    ∃ (recipe : Recipe) (sent kept : Entries),
      Value.ofText body = .ok (.object [("tools", .array [.object pot])]) ∧
      ((Operation.read (.collection .recipes) "soup").perform.run (answering body) ()).1 =
        .ok recipe ∧
      (Operation.replace .recipes "soup" recipe).request =
        .ok (.json .put (Path.recipe "soup") (.object sent)) ∧
      sent.get? "tools" = some (.array [.object kept]) ∧
      kept.get? "owner" = some (.number (.integer 1)) := by
  intro body pot
  have hbody : Value.ofText body = .ok (.object [("tools", .array [.object pot])]) := by
    apply Value.eq_ok_of_same
    rw [Value.ofText, Reader.whole_ofList]
    decide +kernel
  have hread : (Recipe.codec.ofText body).toOption.isSome = true := by
    rw [Codec.ofText, Reader.whole_ofList]
    decide +kernel
  obtain ⟨recipe, hrecipe⟩ := Option.isSome_iff_exists.mp hread
  have hrun := run_answering "soup" rfl (ok_of_toOption hrecipe)
  obtain ⟨sent, hrequest, hlists⟩ := sends_back rfl hbody hrun "soup"
  obtain ⟨elements, helements, hall⟩ := hlists .tools [.object pot] rfl
  obtain ⟨kept, rfl, hsent⟩ := exists_kept_of_singleton hall
  refine ⟨recipe, sent, kept, hbody, hrun, hrequest, helements, ?_⟩
  rcases hsent.members "owner" _ rfl (Or.inl rfl) with howner | ⟨-, hname, -⟩
  · exact howner
  · exact absurd hname (by simp)

/-- An asset is sent back without a member that it does not model. -/
theorem not_kept_photo :
    let body := "\x7b\"assets\":[\x7b\"name\":\"photo\",\"icon\":\"image\",\"size\":\"XL\"\x7d]\x7d"
    let photo : Entries :=
      [("icon", .string "image"), ("name", .string "photo"), ("size", .string "XL")]
    ∃ (recipe : Recipe) (sent kept : Entries),
      Value.ofText body = .ok (.object [("assets", .array [.object photo])]) ∧
      ((Operation.read (.collection .recipes) "soup").perform.run (answering body) ()).1 =
        .ok recipe ∧
      (Operation.replace .recipes "soup" recipe).request =
        .ok (.json .put (Path.recipe "soup") (.object sent)) ∧
      sent.get? "assets" = some (.array [.object kept]) ∧
      photo.get? "size" = some (.string "XL") ∧ kept.get? "size" = none := by
  intro body photo
  have hbody : Value.ofText body = .ok (.object [("assets", .array [.object photo])]) := by
    apply Value.eq_ok_of_same
    rw [Value.ofText, Reader.whole_ofList]
    decide +kernel
  have hread : (Recipe.codec.ofText body).toOption.isSome = true := by
    rw [Codec.ofText, Reader.whole_ofList]
    decide +kernel
  obtain ⟨recipe, hrecipe⟩ := Option.isSome_iff_exists.mp hread
  have htaken := Recipe.agrees.ofText (ok_of_toOption hrecipe) hbody
  obtain ⟨elements, hsent, hall⟩ :=
    assets.sentBack_of_get? (Value.canonical_of_ofText hbody) htaken
      (show Entries.get? _ "assets" = some (.array [.object photo]) from rfl)
  obtain ⟨kept, rfl, hkept⟩ := exists_kept_of_singleton hall
  refine ⟨recipe, Recipe.record.sent recipe, kept, hbody, ?_, rfl, hsent, rfl, ?_⟩
  · exact run_answering "soup" rfl (ok_of_toOption hrecipe)
  · -- an asset has no place for its size
    exact hkept.lost rfl "size" rfl

end RecipeList

end RecipeClient
