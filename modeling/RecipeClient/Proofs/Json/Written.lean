import Mathlib.Data.List.Forall2
import RecipeClient.Proofs.Json.Fronts

/-!
# Objects and lists as they are written

Between the braces of an object stand its members with commas between them, each a key with a colon
and the text of a value; between the brackets of a list stand the texts of values. The space around
a value belongs to its text, so a text is made of these parts and nothing else, and every object or
list that is passed over can be taken apart into them.

- `WrittenValue`, `WrittenMember`: the parts
- `exists_written`, `skippedMembers_written`: an object is its written members
- `exists_items`, `listedItems_written`: a list is its written values
-/

namespace RecipeClient.Json

/-! ## Parts of a text -/

/-- Reads a key and its colon. -/
def readLabel : Step String := fun cs =>
  match skipSpace cs with
  | '"' :: rest => do
    let (key, rest) ← scanString rest
    return (key, ← colon rest)
  | _ => .error (.malformed .keyNotString)

/-- A value as it is written, with the space around it. -/
structure WrittenValue where
  /-- The text of the value. -/
  value : List Char
  passed : ∃ after, skipValue value = .ok after ∧ Blank after

/-- A member of an object as it is written. -/
structure WrittenMember extends WrittenValue where
  key : String
  /-- The text up to the colon. -/
  label : List Char
  labelled : readLabel label = .ok (key, [])

/-- The text of a member. -/
def WrittenMember.text (m : WrittenMember) : List Char := m.label ++ m.value

/-- Texts with a comma in front of each. -/
def behind (texts : List (List Char)) : List Char := texts.flatMap (',' :: ·)

/-- Texts with commas between them. -/
def joined : List (List Char) → List Char
  | [] => []
  | text :: texts => text ++ behind texts

@[simp]
theorem behind_nil : behind [] = [] := rfl

@[simp]
theorem behind_cons (text : List Char) (texts : List (List Char)) :
    behind (text :: texts) = ',' :: (text ++ behind texts) := rfl

/-- Behind a value stand the other parts with their commas and then the end. -/
theorem follows_behind (texts : List (List Char)) {space : List Char} (hspace : Blank space)
    {c : Char} (hc : c = ',' ∨ c = ']' ∨ c = '\x7d') (cs : List Char) :
    Follows (behind texts ++ (space ++ c :: cs)) := by
  cases texts with
  | nil => exact hspace.follows_append (ends_cons hc).follows
  | cons text texts => exact (ends_cons (Or.inl rfl)).follows

/-! ## Keys -/

theorem readLabel_eq_ok {cs rest : List Char} {key : String} :
    readLabel cs = .ok (key, rest) ↔ ∃ name front, skipSpace cs = '"' :: name ∧
      scanString name = .ok (key, front) ∧ colon front = .ok rest := by
  constructor
  · intro h
    unfold readLabel at h
    split at h
    · rename_i name hquote
      obtain ⟨⟨_, front⟩, hscan, hmore⟩ := bind_eq_ok.mp h
      obtain ⟨_, hcolon, hread⟩ := bind_eq_ok.mp hmore
      obtain ⟨rfl, rfl⟩ := ok_pair_inj.mp hread
      exact ⟨name, front, hquote, hscan, hcolon⟩
    · cases h
  · rintro ⟨name, front, hquote, hscan, hcolon⟩
    simp only [readLabel, hquote, hscan, ok_bind, hcolon]
    rfl

theorem readLabel_front {cs rest : List Char} {key : String} (h : readLabel cs = .ok (key, rest)) :
    ∃ label, cs = label ++ rest ∧ ∀ tail, readLabel (label ++ tail) = .ok (key, tail) := by
  obtain ⟨name, front, hquote, hscan, hcolon⟩ := readLabel_eq_ok.mp h
  obtain ⟨before, rfl, hbefore⟩ := exists_space hquote
  obtain ⟨string, rfl, hstring⟩ := scanString_front hscan
  obtain ⟨gap, rfl, hgap⟩ := exists_space (colon_eq_ok.mp hcolon)
  refine ⟨before ++ '"' :: (string ++ (gap ++ [':'])), by simp, ?_⟩
  intro tail
  simp only [List.append_assoc, List.cons_append, List.nil_append]
  exact readLabel_eq_ok.mpr ⟨_, _, skipSpace_token hbefore (by decide) _, hstring _,
    colon_eq_ok.mpr (skipSpace_token hgap (by decide) tail)⟩

theorem WrittenMember.readLabel_text (m : WrittenMember) (tail : List Char) :
    readLabel (m.label ++ tail) = .ok (m.key, tail) := by
  obtain ⟨label, heq, hread⟩ := readLabel_front m.labelled
  rw [List.append_nil] at heq
  rw [heq]
  exact hread tail

/-- The first key of an object stands behind the brace. -/
theorem nextKey_first_iff {cs text : List Char} {key : String} :
    (∃ front, nextKey true cs = .ok (some key, front) ∧ colon front = .ok text) ↔
      readLabel cs = .ok (key, text) := by
  rw [readLabel_eq_ok]
  constructor
  · rintro ⟨front, hnext, hcolon⟩
    obtain ⟨name, hquote, hscan⟩ := skipSpace_of_nextKey_first hnext
    exact ⟨name, front, hquote, hscan, hcolon⟩
  · rintro ⟨name, front, hquote, hscan, hcolon⟩
    refine ⟨front, ?_, hcolon⟩
    simp [nextKey, hquote, hscan]

/-- Every other key stands behind a comma. -/
theorem nextKey_later_iff {cs text : List Char} {key : String} :
    (∃ front, nextKey false cs = .ok (some key, front) ∧ colon front = .ok text) ↔
      ∃ space tail, cs = space ++ ',' :: tail ∧ Blank space ∧ readLabel tail = .ok (key, text) := by
  constructor
  · rintro ⟨front, hnext, hcolon⟩
    obtain ⟨tail, name, hcomma, hquote, hscan⟩ := skipSpace_of_nextKey_later hnext
    obtain ⟨space, rfl, hspace⟩ := exists_space hcomma
    exact ⟨space, tail, rfl, hspace, readLabel_eq_ok.mpr ⟨name, front, hquote, hscan, hcolon⟩⟩
  · rintro ⟨space, tail, rfl, hspace, hlabel⟩
    obtain ⟨name, front, hquote, hscan, hcolon⟩ := readLabel_eq_ok.mp hlabel
    refine ⟨front, ?_, hcolon⟩
    have hcomma := skipSpace_token hspace (c := ',') (by decide) tail
    simp [nextKey, hcomma, hquote, hscan]

theorem nextKey_end_iff {first : Bool} {cs rest : List Char} :
    nextKey first cs = .ok (none, rest) ↔ ∃ space, cs = space ++ '\x7d' :: rest ∧ Blank space := by
  constructor
  · intro h
    exact exists_space (skipSpace_of_nextKey_end h)
  · rintro ⟨space, rfl, hspace⟩
    have hclosed := skipSpace_token hspace (c := '\x7d') (by decide) rest
    simp only [nextKey, hclosed]

/-! ## Objects -/

/-- The text starts with the written value, up to the space in front of it, and behind it stands
what stands behind a value. -/
def WrittenValue.Opens (w : WrittenValue) (text : List Char) : Prop :=
  ∃ space tail, space ++ text = w.value ++ tail ∧ Blank space ∧ Follows tail

/-- A member that was passed over is the written one. -/
def WrittenMember.Stands (m : String × List Char) (w : WrittenMember) : Prop :=
  m.1 = w.key ∧ w.Opens m.2

theorem WrittenValue.skipValue_append (w : WrittenValue) {tail : List Char} (ht : Follows tail) :
    ∃ after, Blank after ∧ skipValue (w.value ++ tail) = .ok (after ++ tail) := by
  obtain ⟨after, hskip, hafter⟩ := w.passed
  obtain ⟨front, heq, hfront⟩ := skipValue_front hskip
  refine ⟨after, hafter, ?_⟩
  rw [heq, List.append_assoc]
  exact hfront _ (hafter.follows_append ht)

section Objects

variable {rest : List Char}

/-- The texts of written members. -/
def memberTexts (ws : List WrittenMember) : List (List Char) := ws.map (·.text)

@[simp]
theorem memberTexts_nil : memberTexts [] = [] := rfl

@[simp]
theorem memberTexts_cons (w : WrittenMember) (ws : List WrittenMember) :
    memberTexts (w :: ws) = w.text :: memberTexts ws := rfl

/-- A member that is passed over is a written one, with the space behind its value. -/
theorem exists_member {tail text behindValue space others : List Char} {key : String}
    (hlabel : readLabel tail = .ok (key, text)) (hskip : skipValue text = .ok behindValue)
    (hspace : Blank space) (hbehind : behindValue = space ++ others) (hothers : Follows others) :
    ∃ w : WrittenMember, tail = w.text ++ others ∧ w.Stands (key, text) := by
  obtain ⟨label, rfl, hread⟩ := readLabel_front hlabel
  obtain ⟨value, rfl, hvalue⟩ := skipValue_front hskip
  subst hbehind
  let w : WrittenMember :=
    { value := value ++ space, passed := ⟨space, hvalue space hspace.follows, hspace⟩, key := key,
      label := label, labelled := by simpa using hread [] }
  refine ⟨w, ?_, rfl, [], others, ?_, blank_nil, hothers⟩
  · simp [w, WrittenMember.text]
  · simp [w]

theorem exists_written_later {members : List (String × List Char)} {first : Bool} {cs : List Char}
    (h : SkippedMembers members first cs rest) (hfirst : first = false) :
    ∃ space ws, cs = space ++ (behind (memberTexts ws) ++ '\x7d' :: rest) ∧ Blank space ∧
      List.Forall₂ WrittenMember.Stands members ws := by
  induction h with
  | done closed =>
    obtain ⟨space, rfl, hspace⟩ := nextKey_end_iff.mp closed
    exact ⟨space, [], rfl, hspace, .nil⟩
  | member next separated skipped others ih =>
    subst hfirst
    obtain ⟨space, tail, rfl, hspace, hlabel⟩ := nextKey_later_iff.mp ⟨_, next, separated⟩
    obtain ⟨after, ws, hbehind, hafter, hws⟩ := ih rfl
    obtain ⟨w, rfl, hw⟩ :=
      exists_member hlabel skipped hafter hbehind (follows_behind _ blank_nil (by decide) _)
    exact ⟨space, w :: ws, by simp, hspace, .cons hw hws⟩

/-- The members of an object that are passed over are written with commas between them. -/
theorem exists_written {members : List (String × List Char)} {cs : List Char}
    (h : SkippedMembers members true cs rest) :
    ∃ ws space, cs = joined (memberTexts ws) ++ (space ++ '\x7d' :: rest) ∧ Blank space ∧
      List.Forall₂ WrittenMember.Stands members ws := by
  cases h with
  | done closed =>
    obtain ⟨space, rfl, hspace⟩ := nextKey_end_iff.mp closed
    exact ⟨[], space, rfl, hspace, .nil⟩
  | member next separated skipped others =>
    have hlabel := nextKey_first_iff.mp ⟨_, next, separated⟩
    obtain ⟨after, ws, hbehind, hafter, hws⟩ := exists_written_later others rfl
    obtain ⟨w, rfl, hw⟩ :=
      exists_member hlabel skipped hafter hbehind (follows_behind _ blank_nil (by decide) _)
    exact ⟨w :: ws, [], by simp [joined], blank_nil, .cons hw hws⟩

theorem skippedMembers_later (ws : List WrittenMember) {space gap : List Char}
    (hspace : Blank space) (hgap : Blank gap) :
    ∃ members, SkippedMembers members false
      (space ++ (behind (memberTexts ws) ++ (gap ++ '\x7d' :: rest))) rest ∧
      List.Forall₂ WrittenMember.Stands members ws := by
  induction ws generalizing space with
  | nil =>
    have hclosed : space ++ (gap ++ '\x7d' :: rest) = (space ++ gap) ++ '\x7d' :: rest :=
      (List.append_assoc ..).symm
    exact ⟨[], .done (nextKey_end_iff.mpr ⟨_, hclosed, hspace.append hgap⟩), .nil⟩
  | cons w ws ih =>
    have hfollows := follows_behind (memberTexts ws) hgap (c := '\x7d') (by decide) rest
    obtain ⟨after, hafter, hskip⟩ := w.skipValue_append hfollows
    obtain ⟨members, hmembers, hws⟩ := ih hafter
    obtain ⟨front, hnext, hcolon⟩ :=
      nextKey_later_iff.mpr ⟨space, _, rfl, hspace, w.readLabel_text (w.value ++ _)⟩
    refine ⟨(w.key, w.value ++ _) :: members, ?_, .cons ⟨rfl, [], _, rfl, blank_nil, hfollows⟩ hws⟩
    simp only [memberTexts_cons, behind_cons, List.cons_append, WrittenMember.text,
      List.append_assoc]
    exact .member hnext hcolon hskip hmembers

/-- Members written with commas between them are passed over. -/
theorem skippedMembers_written (ws : List WrittenMember) {gap : List Char} (hgap : Blank gap)
    (rest : List Char) :
    ∃ members, SkippedMembers members true (joined (memberTexts ws) ++ (gap ++ '\x7d' :: rest))
      rest ∧ List.Forall₂ WrittenMember.Stands members ws := by
  cases ws with
  | nil => exact ⟨[], .done (nextKey_end_iff.mpr ⟨gap, rfl, hgap⟩), .nil⟩
  | cons w ws =>
    have hfollows := follows_behind (memberTexts ws) hgap (c := '\x7d') (by decide) rest
    obtain ⟨after, hafter, hskip⟩ := w.skipValue_append hfollows
    obtain ⟨members, hmembers, hws⟩ := skippedMembers_later ws hafter hgap
    obtain ⟨front, hnext, hcolon⟩ := nextKey_first_iff.mpr (w.readLabel_text (w.value ++ _))
    refine ⟨(w.key, w.value ++ _) :: members, ?_, .cons ⟨rfl, [], _, rfl, blank_nil, hfollows⟩ hws⟩
    simp only [memberTexts_cons, joined, WrittenMember.text, List.append_assoc]
    exact .member hnext hcolon hskip hmembers

end Objects

/-! ## Lists -/

/-- The items of a list are passed over, up to and including its closing bracket; each is the text
from it on. -/
inductive ListedItems : List (List Char) → Bool → List Char → List Char → Prop where
  | done {first : Bool} {cs rest : List Char} (closed : nextElement first cs = .ok (false, rest)) :
      ListedItems [] first cs rest
  | item {texts : List (List Char)} {first : Bool} {cs front behind rest : List Char}
      (next : nextElement first cs = .ok (true, front)) (value : skipValue front = .ok behind)
      (others : ListedItems texts false behind rest) : ListedItems (front :: texts) first cs rest

theorem nextElement_end_iff {first : Bool} {cs rest : List Char} :
    nextElement first cs = .ok (false, rest) ↔
      ∃ space, cs = space ++ ']' :: rest ∧ Blank space := by
  constructor
  · intro h
    exact exists_space (skipSpace_of_nextElement_end h)
  · rintro ⟨space, rfl, hspace⟩
    have hclosed := skipSpace_token hspace (c := ']') (by decide) rest
    simp only [nextElement, hclosed]

/-- A text that does not end the list at once. -/
def StartsItem (front : List Char) : Prop := ∃ c tail, front = c :: tail ∧ c ≠ ']'

theorem nextElement_first_iff {cs front : List Char} :
    nextElement true cs = .ok (true, front) ↔ skipSpace cs = front ∧ StartsItem front := by
  constructor
  · exact skipSpace_of_nextElement_first
  · rintro ⟨hfront, c, tail, rfl, hc⟩
    simp [nextElement, hfront]

theorem nextElement_later_iff {cs front : List Char} :
    nextElement false cs = .ok (true, front) ↔ ∃ space tail, cs = space ++ ',' :: tail ∧
      Blank space ∧ skipSpace tail = front ∧ StartsItem front := by
  constructor
  · intro h
    obtain ⟨tail, hcomma, hfront⟩ := skipSpace_of_nextElement_later h
    obtain ⟨space, rfl, hspace⟩ := exists_space hcomma
    refine ⟨space, tail, rfl, hspace, hfront, ?_⟩
    -- neither the end of the text nor a bracket may stand behind a comma
    cases front with
    | nil =>
      have hend : nextElement false (space ++ ',' :: tail) = .error (.unfinished .value) := by
        simp [nextElement, hcomma, hfront]
      cases hend.symm.trans h
    | cons c item =>
      refine ⟨c, item, rfl, ?_⟩
      rintro rfl
      have hclosed : nextElement false (space ++ ',' :: tail) =
          .error (.malformed .trailingComma) := by
        simp [nextElement, hcomma, hfront]
      cases hclosed.symm.trans h
  · rintro ⟨space, tail, rfl, hspace, hfront, c, item, rfl, hc⟩
    have hcomma := skipSpace_token hspace (c := ',') (by decide) tail
    simp [nextElement, hcomma, hfront, hc]

/-- What is passed over is no closing bracket. -/
theorem startsItem_of_skipValue {cs rest : List Char} (h : skipValue cs = .ok rest) :
    StartsItem (skipSpace cs) := by
  cases hfront : skipSpace cs with
  | nil =>
    rw [skipValue, skipNested, hfront] at h
    cases h
  | cons c tail =>
    refine ⟨c, tail, rfl, ?_⟩
    rintro rfl
    rw [skipValue, skipNested, hfront] at h
    cases h

theorem skipValue_space {space : List Char} (hspace : Blank space) {cs rest : List Char}
    (h : skipValue cs = .ok rest) : skipValue (space ++ cs) = .ok rest := by
  rw [skipValue, ← skipNested_skipSpace, skipSpace_append hspace, skipNested_skipSpace]
  apply skipNested_of_skipValue h
  rw [List.length_append]
  omega

theorem skipValue_skipSpace {cs rest : List Char} (h : skipValue cs = .ok rest)
    (hrest : Follows rest) : skipValue (skipSpace cs) = .ok rest := by
  rw [skipValue, ← skipNested_skipSpace] at h
  obtain ⟨front, heq, hfront⟩ := skipNested_front h
  rw [heq]
  apply hfront rest _ hrest
  rw [List.length_append]
  omega

section Lists

variable {rest : List Char}

/-- The texts of written values. -/
def valueTexts (ws : List WrittenValue) : List (List Char) := ws.map (·.value)

@[simp]
theorem valueTexts_nil : valueTexts [] = [] := rfl

@[simp]
theorem valueTexts_cons (w : WrittenValue) (ws : List WrittenValue) :
    valueTexts (w :: ws) = w.value :: valueTexts ws := rfl

/-- An item that is passed over is a written one, with the space around its value. -/
theorem exists_item {tail text behindValue space others : List Char}
    (hfront : skipSpace tail = text) (hskip : skipValue text = .ok behindValue)
    (hspace : Blank space) (hbehind : behindValue = space ++ others) (hothers : Follows others) :
    ∃ w : WrittenValue, tail = w.value ++ others ∧ w.Opens text := by
  obtain ⟨before, rfl, hbefore⟩ := exists_space hfront
  obtain ⟨value, rfl, hvalue⟩ := skipValue_front hskip
  subst hbehind
  have hpassed : skipValue (before ++ (value ++ space)) = .ok space :=
    skipValue_space hbefore (hvalue space hspace.follows)
  refine ⟨⟨before ++ (value ++ space), space, hpassed, hspace⟩, ?_, before, others, ?_, hbefore,
    hothers⟩
  · simp
  · simp

theorem exists_items_later {texts : List (List Char)} {first : Bool} {cs : List Char}
    (h : ListedItems texts first cs rest) (hfirst : first = false) :
    ∃ space ws, cs = space ++ (behind (valueTexts ws) ++ ']' :: rest) ∧ Blank space ∧
      List.Forall₂ (fun text w => WrittenValue.Opens w text) texts ws := by
  induction h with
  | done closed =>
    obtain ⟨space, rfl, hspace⟩ := nextElement_end_iff.mp closed
    exact ⟨space, [], rfl, hspace, .nil⟩
  | item next value others ih =>
    subst hfirst
    obtain ⟨space, tail, rfl, hspace, hfront, -⟩ := nextElement_later_iff.mp next
    obtain ⟨after, ws, hbehind, hafter, hws⟩ := ih rfl
    obtain ⟨w, rfl, hw⟩ :=
      exists_item hfront value hafter hbehind (follows_behind _ blank_nil (by decide) _)
    exact ⟨space, w :: ws, by simp, hspace, .cons hw hws⟩

/-- The items of a list that are passed over are written with commas between them. -/
theorem exists_items {texts : List (List Char)} {cs : List Char}
    (h : ListedItems texts true cs rest) :
    ∃ ws space, cs = joined (valueTexts ws) ++ (space ++ ']' :: rest) ∧ Blank space ∧
      List.Forall₂ (fun text w => WrittenValue.Opens w text) texts ws := by
  cases h with
  | done closed =>
    obtain ⟨space, rfl, hspace⟩ := nextElement_end_iff.mp closed
    exact ⟨[], space, rfl, hspace, .nil⟩
  | item next value others =>
    obtain ⟨hfront, -⟩ := nextElement_first_iff.mp next
    obtain ⟨after, ws, hbehind, hafter, hws⟩ := exists_items_later others rfl
    obtain ⟨w, rfl, hw⟩ :=
      exists_item hfront value hafter hbehind (follows_behind _ blank_nil (by decide) _)
    exact ⟨w :: ws, [], by simp [joined], blank_nil, .cons hw hws⟩

/-- A written value with other text behind it starts an item. -/
theorem WrittenValue.item (w : WrittenValue) {tail : List Char} (ht : Follows tail) :
    ∃ after, Blank after ∧ skipValue (skipSpace (w.value ++ tail)) = .ok (after ++ tail) ∧
      StartsItem (skipSpace (w.value ++ tail)) ∧ w.Opens (skipSpace (w.value ++ tail)) := by
  obtain ⟨after, hafter, hskip⟩ := w.skipValue_append ht
  obtain ⟨space, heq, hspace⟩ := exists_space (Eq.refl (skipSpace (w.value ++ tail)))
  exact ⟨after, hafter, skipValue_skipSpace hskip (hafter.follows_append ht),
    startsItem_of_skipValue hskip, space, tail, heq.symm, hspace, ht⟩

theorem listedItems_later (ws : List WrittenValue) {space gap : List Char} (hspace : Blank space)
    (hgap : Blank gap) :
    ∃ texts, ListedItems texts false
      (space ++ (behind (valueTexts ws) ++ (gap ++ ']' :: rest))) rest ∧
      List.Forall₂ (fun text w => WrittenValue.Opens w text) texts ws := by
  induction ws generalizing space with
  | nil =>
    have hclosed : space ++ (gap ++ ']' :: rest) = (space ++ gap) ++ ']' :: rest :=
      (List.append_assoc ..).symm
    exact ⟨[], .done (nextElement_end_iff.mpr ⟨_, hclosed, hspace.append hgap⟩), .nil⟩
  | cons w ws ih =>
    have hfollows := follows_behind (valueTexts ws) hgap (c := ']') (by decide) rest
    obtain ⟨after, hafter, hskip, hstarts, hopens⟩ := w.item hfollows
    obtain ⟨texts, htexts, hws⟩ := ih hafter
    refine ⟨_, ?_, .cons hopens hws⟩
    simp only [valueTexts_cons, behind_cons, List.cons_append, List.append_assoc]
    exact .item (nextElement_later_iff.mpr ⟨space, _, rfl, hspace, rfl, hstarts⟩) hskip htexts

/-- Values written with commas between them are passed over. -/
theorem listedItems_written (ws : List WrittenValue) {gap : List Char} (hgap : Blank gap)
    (rest : List Char) :
    ∃ texts, ListedItems texts true (joined (valueTexts ws) ++ (gap ++ ']' :: rest)) rest ∧
      List.Forall₂ (fun text w => WrittenValue.Opens w text) texts ws := by
  cases ws with
  | nil => exact ⟨[], .done (nextElement_end_iff.mpr ⟨gap, rfl, hgap⟩), .nil⟩
  | cons w ws =>
    have hfollows := follows_behind (valueTexts ws) hgap (c := ']') (by decide) rest
    obtain ⟨after, hafter, hskip, hstarts, hopens⟩ := w.item hfollows
    obtain ⟨texts, htexts, hws⟩ := listedItems_later ws hafter hgap
    refine ⟨_, ?_, .cons hopens hws⟩
    simp only [valueTexts_cons, joined, List.append_assoc]
    exact .item (nextElement_first_iff.mpr ⟨rfl, hstarts⟩) hskip htexts

end Lists

end RecipeClient.Json
