import Mathlib.Data.List.TakeWhile
import RecipeClient.Proofs.Calls
import RecipeClient.Text.Split

/-!
# Uploads

A form holds what was added to it, in the order of the additions, whatever names the texts and files
share. So an upload carries the files that it was given and nothing besides, and an image goes with
the one text without a dot that the name of its file ends with.

- `Upload.IsExtension`: the extension of a file name
- `Form.built`: a form made by additions
- `Form.FirstText`, `Form.isFileUnder`: what is found in a form under a name
- `Operation.Sends`: the form that an operation sends over any line
- `Operation.uploads_given_files`: what is sent for photographs, images and assets
-/

namespace RecipeClient

/-! ## The extension of a file name -/

namespace Upload

/-- A text is the extension of a file name: it holds no dot, and either it is the whole name or it
stands behind a dot at the end of the name. -/
def IsExtension (fileName extension : String) : Prop :=
  '.' ∉ extension.toList ∧ (fileName = extension ∨ ∃ front, fileName = front ++ "." ++ extension)

theorem extensionOf_of_not_mem {cs : List Char} (h : '.' ∉ cs) : extensionOf cs = cs := by
  have hall : ∀ c ∈ cs.reverse, (c != '.') = true := Text.bne_of_not_mem (by simpa using h)
  have htake : cs.reverse.takeWhile (· != '.') = cs.reverse := List.takeWhile_eq_self_iff.mpr hall
  rw [extensionOf, htake, List.reverse_reverse]

theorem extensionOf_append_cons (front : List Char) {cs : List Char} (h : '.' ∉ cs) :
    extensionOf (front ++ '.' :: cs) = cs := by
  have hall : ∀ c ∈ cs.reverse, (c != '.') = true := Text.bne_of_not_mem (by simpa using h)
  -- read from its end, the name begins with the extension and goes on with a dot
  have hname : (front ++ '.' :: cs).reverse = cs.reverse ++ '.' :: front.reverse := by simp
  obtain ⟨htake, -⟩ := Text.span_append_cons hall (c := '.') (by simp) front.reverse
  rw [extensionOf, hname, htake, List.reverse_reverse]

/-- A name is its own extension, or its last dot stands before the extension. -/
theorem extensionOf_cases (cs : List Char) :
    '.' ∉ extensionOf cs ∧
      (cs = extensionOf cs ∨ ∃ front, cs = front ++ '.' :: extensionOf cs) := by
  by_cases hdot : '.' ∈ cs
  · obtain ⟨after, front, hname, hafter⟩ :=
      List.eq_append_cons_of_mem (List.mem_reverse.mpr hdot)
    have hcs : cs = front.reverse ++ '.' :: after.reverse := by
      rw [← List.reverse_reverse cs, hname]
      simp
    have hextension : extensionOf cs = after.reverse := by
      rw [hcs]
      exact extensionOf_append_cons front.reverse (by simpa using hafter)
    rw [hextension]
    exact ⟨by simpa using hafter, Or.inr ⟨front.reverse, hcs⟩⟩
  · rw [extensionOf_of_not_mem hdot]
    exact ⟨hdot, Or.inl rfl⟩

/-- Every file name has one extension. -/
theorem isExtension_iff (file : Upload) (text : String) :
    IsExtension file.fileName text ↔ text = file.extension := by
  constructor
  · rintro ⟨hdot, hname | ⟨front, hname⟩⟩
    · rw [extension, hname, extensionOf_of_not_mem hdot, String.ofList_toList]
    · have hcs : file.fileName.toList = front.toList ++ '.' :: text.toList := by
        simp [hname, String.toList_append]
      rw [extension, hcs, extensionOf_append_cons front.toList hdot, String.ofList_toList]
  · rintro rfl
    obtain ⟨hdot, hname⟩ := extensionOf_cases file.fileName.toList
    rw [IsExtension, extension, String.toList_ofList]
    refine ⟨hdot, ?_⟩
    rcases hname with hname | ⟨front, hname⟩
    · left
      rw [← hname, String.ofList_toList]
    · right
      refine ⟨String.ofList front, ?_⟩
      apply String.toList_injective
      simpa [String.toList_append] using hname

example : [".profile", "photo.large.png", "soup.", "README", "Brühe.été"].map (extension ⟨·, []⟩) =
    ["profile", "png", "", "README", "été"] := by decide +kernel

end Upload

/-! ## Forms -/

namespace Form

/-- A form with a field added at its end. -/
def add (form : Form) : String × FormValue → Form
  | (name, .text value) => form.text name value
  | (name, .file upload) => form.file name upload

/-- The form to which fields were added one after the other. -/
def built (additions : List (String × FormValue)) : Form := additions.foldl add empty

theorem fields_add (form : Form) (field : String × FormValue) :
    (form.add field).fields = form.fields ++ [field] := by
  obtain ⟨name, value | upload⟩ := field <;> rfl

theorem fields_foldl_add (additions : List (String × FormValue)) (form : Form) :
    (additions.foldl add form).fields = form.fields ++ additions := by
  -- every addition leaves another form, so the induction is for all of them
  induction additions generalizing form with
  | nil => simp
  | cons field additions ih =>
    rw [List.foldl_cons, ih, fields_add, List.append_assoc]
    rfl

theorem fields_built (additions : List (String × FormValue)) :
    (built additions).fields = additions :=
  fields_foldl_add additions empty

/-! ### What is found under a name -/

/-- What there is to find under a name: the first text among the fields of that name, whatever files
stand before it, or nothing. -/
inductive FirstText (name : String) (fields : List (String × FormValue)) :
    Option String → Prop where
  | found {before behind : List (String × FormValue)} {value : String}
      (fields_eq : fields = before ++ (name, .text value) :: behind)
      (first : ∀ other, (name, .text other) ∉ before) : FirstText name fields (some value)
  | missing (absent : ∀ value, (name, .text value) ∉ fields) : FirstText name fields none

/-- Whether a field is a file of a name. -/
def isFileUnder (name : String) : String × FormValue → Bool
  | (n, .file _) => n == name
  | (_, .text _) => false

theorem textOf?_eq_some_iff {name value : String} {field : String × FormValue} :
    textOf? name field = some value ↔ field = (name, .text value) := by
  obtain ⟨other, text | upload⟩ := field
  · by_cases hname : other = name <;> simp [textOf?, hname]
  · simp [textOf?]

/-- A search for a text passes over fields exactly if there is no text of the name among them. -/
theorem forall_textOf?_eq_none_iff {name : String} {fields : List (String × FormValue)} :
    (∀ field ∈ fields, textOf? name field = none) ↔ ∀ value, (name, .text value) ∉ fields := by
  constructor
  · intro hall value hvalue
    have hfound : textOf? name (name, .text value) = some value := textOf?_eq_some_iff.mpr rfl
    exact absurd (hfound.symm.trans (hall _ hvalue)) nofun
  · intro habsent field hfield
    apply Option.eq_none_iff_forall_ne_some.mpr
    intro value hvalue
    obtain rfl := textOf?_eq_some_iff.mp hvalue
    exact habsent value hfield

theorem text?_eq_iff (form : Form) (name : String) (found : Option String) :
    form.text? name = found ↔ FirstText name form.fields found := by
  unfold text?
  cases found with
  | some value =>
    rw [List.findSome?_eq_some_iff]
    constructor
    · rintro ⟨before, field, behind, hfields, hfield, hbefore⟩
      obtain rfl := textOf?_eq_some_iff.mp hfield
      exact .found hfields (forall_textOf?_eq_none_iff.mp hbefore)
    · intro h
      cases h with
      | found hfields hfirst =>
        have hbefore := forall_textOf?_eq_none_iff.mpr hfirst
        exact ⟨_, _, _, hfields, textOf?_eq_some_iff.mpr rfl, hbefore⟩
  | none =>
    rw [List.findSome?_eq_none_iff, forall_textOf?_eq_none_iff]
    constructor
    · exact .missing
    · intro h
      cases h with
      | missing habsent => exact habsent

/-- The files under a name are the fields that are files of that name, in order. -/
theorem map_filesNamed (form : Form) (name : String) :
    (form.filesNamed name).map (fun upload => (name, FormValue.file upload)) =
      form.fields.filter (isFileUnder name) := by
  unfold filesNamed
  induction form.fields with
  | nil => rfl
  | cons field fields ih =>
    rw [List.filterMap_cons, List.filter_cons, ← ih]
    obtain ⟨other, value | upload⟩ := field
    · rfl
    · by_cases hname : other = name <;> simp [fileOf?, isFileUnder, hname]

/-- The fields of files under one name. -/
def fileFields (name : String) (uploads : List Upload) : List (String × FormValue) :=
  uploads.map fun upload => (name, .file upload)

theorem fields_files (name : String) (uploads : List Upload) :
    (empty.files name uploads).fields = fileFields name uploads := by
  have hbuilt : empty.files name uploads = built (fileFields name uploads) := by
    rw [built, fileFields, List.foldl_map]
    rfl
  rw [hbuilt, fields_built]

theorem filesNamed_files (name : String) (uploads : List Upload) :
    (empty.files name uploads).filesNamed name = uploads := by
  have hfile : fileOf? name ∘ (fun upload => (name, FormValue.file upload)) = some := by
    funext upload
    simp [fileOf?]
  rw [filesNamed, fields_files, fileFields, List.filterMap_map, hfile, List.filterMap_some]

end Form

/-! ## What is sent -/

namespace Operation

open Form (built FirstText isFileUnder)
open Upload (IsExtension)

/-- Over any line, an operation sends one request, and that carries a form. -/
def Sends (o : Operation) (form : Form) : Prop :=
  ∀ (σ : Type) (line : Line σ) (state : σ), ∃ request,
    o.perform.exchanges line state = [⟨request, state, (line.reply request state).1⟩] ∧
    request.body = .form form

theorem sends_of_request {o : Operation} {request : Request} {form : Form}
    (h : o.request = .ok request) (hbody : request.body = .form form) : o.Sends form := by
  intro σ line state
  exact ⟨request, exchanges_perform h, hbody⟩

/-- Photographs are sent as the files of the form, in order, and nothing goes with them. An image is
sent with its extension, which the name of its file determines, and an asset with its three texts. A
form holds what was added to it, in order: under a name it gives the first text and all files. -/
theorem uploads_given_files :
    (∀ images language, ∃ form, (createFromImages images language).Sends form ∧
      form.filesNamed "images" = images ∧
      form.fields = images.map fun image => ("images", .file image)) ∧
    (∀ slug file, ∃ extension,
      (∀ text, IsExtension file.fileName text ↔ text = extension) ∧
      (setImage slug file).Sends ⟨[("image", .file file), ("extension", .text extension)]⟩) ∧
    (∀ event file, ∃ extension,
      (∀ text, IsExtension file.fileName text ↔ text = extension) ∧
      (setEventImage event file).Sends ⟨[("image", .file file), ("extension", .text extension)]⟩) ∧
    (∀ slug name icon extension file, (addAsset slug name icon extension file).Sends
      ⟨[("file", .file file), ("name", .text name), ("extension", .text extension),
        ("icon", .text icon)]⟩) ∧
    (∀ additions, (built additions).fields = additions ∧
      ∀ name, (∀ found, (built additions).text? name = found ↔ FirstText name additions found) ∧
        ((built additions).filesNamed name).map (fun upload => (name, .file upload)) =
          additions.filter (isFileUnder name)) := by
  refine ⟨?_, ?_, ?_, ?_, ?_⟩
  · intro images language
    exact ⟨_, sends_of_request rfl rfl, Form.filesNamed_files "images" images,
      Form.fields_files "images" images⟩
  · intro slug file
    exact ⟨file.extension, file.isExtension_iff, sends_of_request rfl rfl⟩
  · intro event file
    exact ⟨file.extension, file.isExtension_iff, sends_of_request rfl rfl⟩
  · intro slug name icon extension file
    exact sends_of_request rfl rfl
  · intro additions
    have hfields := Form.fields_built additions
    refine ⟨hfields, ?_⟩
    intro name
    constructor
    · intro found
      rw [Form.text?_eq_iff, hfields]
    · rw [Form.map_filesNamed, hfields]

end Operation

end RecipeClient
