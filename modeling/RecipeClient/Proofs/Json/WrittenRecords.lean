import RecipeClient.Proofs.Json.Locality

/-!
# Records as they are written

An object is made of its written members, a list of its written values, and a record is read from
either by reading each of them on its own. So what a record is read as does not depend on where it
stands, and two objects with members that are read alike are read as the same record.

- `SpellsObject`, `SpellsList`: a text as an object or a list of its parts
- `Record.reads_object_iff`, `Record.reads_list_iff`: reading a record part by part
- `Record.local_codec`: a record is read off its own text
-/

namespace RecipeClient.Json

section Related

variable {α β : Type} {R : α → β → Prop} {as : List α} {bs : List β}

theorem getElem?_of_forall₂ (h : List.Forall₂ R as bs) {i : Nat} {a : α} (ha : as[i]? = some a) :
    ∃ b, bs[i]? = some b ∧ R a b := by
  induction h generalizing i with
  | nil => cases ha
  | cons hab _ ih =>
    cases i with
    | zero =>
      obtain rfl := Option.some.inj ha
      exact ⟨_, rfl, hab⟩
    | succ i => exact ih ha

theorem exists_of_forall₂ (h : List.Forall₂ R as bs) {a : α} (ha : a ∈ as) : ∃ b ∈ bs, R a b := by
  obtain ⟨i, hi⟩ := List.mem_iff_getElem?.mp ha
  obtain ⟨b, hb, hr⟩ := getElem?_of_forall₂ h hi
  exact ⟨b, List.mem_of_getElem? hb, hr⟩

end Related

/-! ## Texts and their parts -/

/-- The text is an object of the written members, with space around it. -/
def SpellsObject (cs : List Char) (ws : List WrittenMember) : Prop :=
  ∃ before gap after,
    cs = before ++ '\x7b' :: (joined (memberTexts ws) ++ (gap ++ '\x7d' :: after)) ∧
    Blank before ∧ Blank gap ∧ Blank after

/-- The text is a list of the written values, with space around it. -/
def SpellsList (cs : List Char) (ws : List WrittenValue) : Prop :=
  ∃ before gap after, cs = before ++ '[' :: (joined (valueTexts ws) ++ (gap ++ ']' :: after)) ∧
    Blank before ∧ Blank gap ∧ Blank after

/-- The text is one of a value, with space around it. -/
def Passed (cs : List Char) : Prop := ∃ after, skipValue cs = .ok after ∧ Blank after

theorem skippedItems_of_listedItems {texts : List (List Char)} {first : Bool} {cs rest : List Char}
    (h : ListedItems texts first cs rest) : SkippedItems first cs rest := by
  induction h with
  | done closed => exact .done closed
  | item next value _ ih => exact .item next value ih

theorem SpellsObject.passed {cs : List Char} {ws : List WrittenMember} (h : SpellsObject cs ws) :
    Passed cs := by
  obtain ⟨before, gap, after, rfl, hbefore, hgap, hafter⟩ := h
  obtain ⟨members, hmembers, -⟩ := skippedMembers_written ws hgap after
  exact ⟨after, skipValue_object (skipSpace_token hbefore (by decide) _) hmembers, hafter⟩

theorem SpellsList.passed {cs : List Char} {ws : List WrittenValue} (h : SpellsList cs ws) :
    Passed cs := by
  obtain ⟨before, gap, after, rfl, hbefore, hgap, hafter⟩ := h
  obtain ⟨texts, htexts, -⟩ := listedItems_written ws hgap after
  exact ⟨after, skipValue_list (skipSpace_token hbefore (by decide) _)
    (skippedItems_of_listedItems htexts), hafter⟩

/-- A text with a value and nothing else is read whole if it is read from the front. -/
theorem Codec.ofText_iff_reads {α : Type} {codec : Codec α} (hskips : codec.Skips) {text : String}
    (htext : Passed text.toList) {a : α} :
    codec.ofText text = .ok a ↔ Step.Reads (codec.read nestingLimit) text.toList a := by
  constructor
  · intro h
    exact Codec.ofText_eq_ok h
  · rintro ⟨rest, hread⟩
    obtain ⟨after, hafter, hblank⟩ := htext
    obtain rfl := Except.ok.inj ((hskips nestingLimit hread).symm.trans hafter)
    rw [Codec.ofText, Reader.whole, hread, ok_bind]
    simp only [finish_eq_ok.mpr hblank, ok_bind]
    rfl

/-- A text that is read whole is one of a value. -/
theorem Codec.passed_of_ofText {α : Type} {codec : Codec α} (hskips : codec.Skips) {text : String}
    {a : α} (h : codec.ofText text = .ok a) : Passed text.toList := by
  obtain ⟨⟨_, rest⟩, hread, h⟩ := bind_eq_ok.mp h
  obtain ⟨_, hend, _⟩ := bind_eq_ok.mp h
  exact ⟨rest, hskips nestingLimit hread, finish_eq_ok.mp hend⟩

/-! ## Members -/

section Members

variable {ρ β : Type}

namespace Member

/-- The values of the member are read off their own texts. -/
def Local (m : Member ρ) : Prop := m.codec.Local

/-- The text is read as a value of the member. -/
def Reads (m : Member ρ) (depth : Nat) (text : List Char) (b : m.β) : Prop :=
  Step.Reads (m.codec.read depth) text b

/-- The item is read as a value of the member, or the value stands for an item that is missing. -/
def Gives (m : Member ρ) (depth : Nat) (b : m.β) : Option (List Char) → Prop
  | some text => m.Reads depth text b
  | none => m.absence.inList? = some b

variable {name : String} {codec : Codec β}

@[simp]
theorem local_required {get : ρ → β} {set : ρ → β → ρ} (h : codec.Local) :
    (required name codec get set).Local := h

@[simp]
theorem local_withDefault {value : β} {get : ρ → β} {set : ρ → β → ρ} (h : codec.Local) :
    (withDefault name codec value get set).Local := h

@[simp]
theorem local_optional {get : ρ → Option β} {set : ρ → Option β → ρ} (h : codec.Local)
    (hskips : codec.Skips) : (optional name codec get set).Local := h.optional hskips

@[simp]
theorem local_listOrNull {get : ρ → List β} {set : ρ → List β → ρ} (h : codec.Local)
    (hskips : codec.Skips) : (listOrNull name codec get set).Local := h.listOrNull hskips

@[simp]
theorem local_list {get : ρ → List β} {set : ρ → List β → ρ} (h : codec.Local)
    (hskips : codec.Skips) : (list name codec get set).Local := h.list hskips

@[simp]
theorem local_listOmitted {get : ρ → List β} {set : ρ → List β → ρ} (h : codec.Local)
    (hskips : codec.Skips) : (listOmitted name codec get set).Local := h.list hskips

end Member

end Members

/-! ## Records from objects -/

namespace Record

variable {ρ : Type} {r : Record ρ} {depth height : Nat} {a : ρ} {cs rest : List Char}

/-- Members with the same keys make the same record if their values are read alike. -/
theorem MadeOf.of_forall₂ {members others : List (String × List Char)}
    (h : List.Forall₂ (fun n m => n.1 = m.1 ∧ ∀ k ∈ r.members, k.name = m.1 →
      k.Reads depth m.2 (k.get a) → k.Reads depth n.2 (k.get a)) others members)
    (hunknown : r.remainder.isSome = true → ∀ read, ReadOutside r.knows depth members read →
      ReadOutside r.knows depth others read)
    (hmade : r.MadeOf depth members a) : r.MadeOf depth others a where
  once := by
    have hkeys : others.map (·.1) = members.map (·.1) := by
      rw [← List.forall₂_eq_eq_eq, List.forall₂_map_left_iff, List.forall₂_map_right_iff]
      exact h.imp fun _ _ heq => heq.1
    rw [knownKeys, hkeys]
    exact hmade.once
  present k hk text hmem := by
    obtain ⟨⟨name, other⟩, hother, rfl, hread⟩ := exists_of_forall₂ h hmem
    exact hread k hk rfl (hmade.present k hk other hother)
  missing k hk hmissing := by
    apply hmade.missing k hk
    intro text hmem
    obtain ⟨⟨name, other⟩, hother, rfl, -⟩ := exists_of_forall₂ h.flip hmem
    exact hmissing other hother
  unknown hkeeps := by
    obtain ⟨read, hread, hrest⟩ := hmade.unknown hkeeps
    exact ⟨read, hunknown hkeeps read hread, hrest⟩

variable (hskips : ∀ m ∈ r.members, m.Skips) (hlocal : ∀ m ∈ r.members, m.Local)

section Objects

include hskips hlocal

/-- Members make the record where they stand as they do on their own. -/
theorem madeOf_stands_iff {members : List (String × List Char)} {ws : List WrittenMember}
    (h : List.Forall₂ WrittenMember.Stands members ws) :
    r.MadeOf depth members a ↔ r.MadeOf depth (ws.map (·.entry)) a := by
  have hread : ∀ {text : List Char} {w : WrittenMember}, w.Opens text → ∀ k ∈ r.members, ∀ b,
      k.Reads depth text b ↔ k.Reads depth w.value b := by
    intro text w hopens k hk b
    exact (hlocal k hk depth).opens_iff (hskips k hk depth) hopens
  constructor
  · refine MadeOf.of_forall₂ ?_ fun _ read => (readOutside_stands_iff (local_readValue depth) h).mp
    rw [List.forall₂_map_left_iff]
    refine h.flip.imp ?_
    rintro w ⟨key, text⟩ ⟨rfl, hopens⟩
    exact ⟨rfl, fun k hk _ => (hread hopens k hk _).mp⟩
  · refine MadeOf.of_forall₂ ?_ fun _ read =>
      (readOutside_stands_iff (local_readValue depth) h).mpr
    rw [List.forall₂_map_right_iff]
    refine h.imp ?_
    rintro ⟨key, text⟩ w ⟨rfl, hopens⟩
    exact ⟨rfl, fun k hk _ => (hread hopens k hk _).mpr⟩

/-- Written members are read as the record that they make on their own. -/
theorem read_members_iff (hr : r.Lawful height) (ws : List WrittenMember) {before gap : List Char}
    (hbefore : Blank before) (hgap : Blank gap) {behind : List Char} :
    r.read (depth + 1) (before ++ '\x7b' :: (joined (memberTexts ws) ++ (gap ++ '\x7d' :: rest))) =
      .ok (a, behind) ↔ behind = rest ∧ r.MadeOf depth (ws.map (·.entry)) a := by
  rw [read_object_iff hr hskips (skipSpace_token hbefore (by decide) _)]
  obtain ⟨members, hmembers, hstands⟩ := skippedMembers_written ws hgap rest
  constructor
  · rintro ⟨others, hothers, hmade⟩
    obtain ⟨rfl, rfl⟩ := hmembers.unique hothers
    exact ⟨rfl, (madeOf_stands_iff hskips hlocal hstands).mp hmade⟩
  · rintro ⟨rfl, hmade⟩
    exact ⟨members, hmembers, (madeOf_stands_iff hskips hlocal hstands).mpr hmade⟩

theorem reads_object_iff (hr : r.Lawful height) {ws : List WrittenMember}
    (h : SpellsObject cs ws) :
    Step.Reads (r.read (depth + 1)) cs a ↔ r.MadeOf depth (ws.map (·.entry)) a := by
  obtain ⟨before, gap, after, rfl, hbefore, hgap, -⟩ := h
  constructor
  · rintro ⟨rest, hread⟩
    exact ((read_members_iff hskips hlocal hr ws hbefore hgap).mp hread).2
  · intro hmade
    exact ⟨after, (read_members_iff hskips hlocal hr ws hbefore hgap).mpr ⟨rfl, hmade⟩⟩

omit hlocal in
/-- An object that is read is made of written members. -/
theorem exists_members_of_read (hr : r.Lawful height) {front : List Char}
    (hfront : skipSpace cs = '\x7b' :: front) (h : r.read (depth + 1) cs = .ok (a, rest)) :
    ∃ ws gap, front = joined (memberTexts ws) ++ (gap ++ '\x7d' :: rest) ∧ Blank gap := by
  obtain ⟨members, hmembers, -⟩ := (read_object_iff hr hskips hfront).mp h
  obtain ⟨ws, gap, hwritten, hgap, -⟩ := exists_written hmembers
  exact ⟨ws, gap, hwritten, hgap⟩

omit hlocal in
theorem exists_spellsObject (hr : r.Lawful height) {front : List Char}
    (hfront : skipSpace cs = '\x7b' :: front) (h : r.read (depth + 1) cs = .ok (a, rest))
    (hrest : Blank rest) : ∃ ws, SpellsObject cs ws := by
  obtain ⟨ws, gap, rfl, hgap⟩ := exists_members_of_read hskips hr hfront h
  obtain ⟨before, hcs, hbefore⟩ := exists_space hfront
  exact ⟨ws, before, gap, rest, hcs, hbefore, hgap, hrest⟩

end Objects

/-! ## Records from lists -/

section Items

open Member (Values collect fill)

/-- The items of a list give members their values, in order. -/
def Fills (depth : Nat) : (ms : List (Member ρ)) → List (List Char) → Values ms → Prop
  | [], texts, _ => texts = []
  | m :: ms, texts, bs => m.Gives depth bs.1 texts.head? ∧ Fills depth ms texts.tail bs.2

/-- The items of a list make the record: each is read as the value of the member at its place, and
the values of the members behind the last one stand for missing ones. -/
structure MadeOfItems (r : Record ρ) (depth : Nat) (texts : List (List Char)) (a : ρ) : Prop where
  fits : texts.length ≤ r.members.length
  gives : ∀ (i : Nat) (m : Member ρ), r.members[i]? = some m → m.Gives depth (m.get a) texts[i]?

theorem fills_collect_iff {ms : List (Member ρ)} {texts : List (List Char)} :
    Fills depth ms texts (collect ms a) ↔ texts.length ≤ ms.length ∧
      ∀ (i : Nat) (m : Member ρ), ms[i]? = some m → m.Gives depth (m.get a) texts[i]? := by
  induction ms generalizing texts with
  | nil => simp [Fills]
  | cons m ms ih =>
    have hlength : texts.tail.length ≤ ms.length ↔ texts.length ≤ (m :: ms).length := by
      rw [List.length_tail, List.length_cons]
      omega
    rw [Fills, collect, ih, hlength]
    simp only [List.getElem?_tail, List.head?_eq_getElem?]
    constructor
    · rintro ⟨hfirst, hfits, hothers⟩
      refine ⟨hfits, ?_⟩
      rintro (_ | i) n hn
      · obtain rfl := Option.some.inj hn
        exact hfirst
      · exact hothers i n hn
    · rintro ⟨hfits, hall⟩
      exact ⟨hall 0 m rfl, hfits, fun i n hn => hall (i + 1) n hn⟩

theorem fills_of_withoutRest {index : Nat} {ms : List (Member ρ)} {b : ρ}
    (h : r.withoutRest index ms a = .ok b) : ∃ bs, b = fill ms bs a ∧ Fills depth ms [] bs := by
  induction ms generalizing index a with
  | nil => exact ⟨(), (Except.ok.inj h).symm, rfl⟩
  | cons m ms ih =>
    unfold withoutRest at h
    split at h
    · rename_i update hupdate
      obtain ⟨value, hvalue, rfl⟩ := Option.map_eq_some_iff.mp hupdate
      obtain ⟨bs, rfl, hbs⟩ := ih h
      exact ⟨(value, bs), rfl, hvalue, hbs⟩
    · cases h

theorem withoutRest_of_fills {index : Nat} {ms : List (Member ρ)} {bs : Values ms}
    (h : Fills depth ms [] bs) : r.withoutRest index ms a = .ok (fill ms bs a) := by
  induction ms generalizing index a with
  | nil => rfl
  | cons m ms ih =>
    obtain ⟨hvalue, hothers⟩ := h
    have hupdate : m.updateInList? = some (m.set · bs.1) := by
      replace hvalue : m.absence.inList? = some bs.1 := hvalue
      rw [Member.updateInList?, hvalue]
      rfl
    rw [withoutRest, hupdate]
    exact ih hothers

theorem endOfList_of_nextElement {first : Bool} (h : nextElement first cs = .ok (false, rest)) :
    endOfList cs = .ok rest := by
  obtain ⟨space, rfl, hspace⟩ := nextElement_end_iff.mp h
  have hclosed := skipSpace_token hspace (c := ']') (by decide) rest
  simp only [endOfList, hclosed]

theorem items_of_readElements {index : Nat} {ms : List (Member ρ)} (hms : ∀ m ∈ ms, m.Skips)
    {b : ρ} (h : r.readElements depth index ms a cs = .ok (b, rest)) :
    ∃ texts bs, ListedItems texts (index == 0) cs rest ∧ b = fill ms bs a ∧
      Fills depth ms texts bs := by
  induction ms generalizing index a cs with
  | nil =>
    obtain ⟨_, hend, h⟩ := bind_eq_ok.mp h
    obtain ⟨rfl, rfl⟩ := ok_pair_inj.mp h
    exact ⟨[], (), .done (nextElement_of_endOfList _ hend), rfl, rfl⟩
  | cons m ms ih =>
    obtain ⟨⟨more, front⟩, hnext, h⟩ := bind_eq_ok.mp h
    cases more with
    | false =>
      obtain ⟨c, hc, h⟩ := bind_eq_ok.mp h
      obtain ⟨rfl, rfl⟩ := ok_pair_inj.mp h
      -- the list ends early
      obtain ⟨bs, rfl, hbs⟩ := fills_of_withoutRest hc
      exact ⟨[], bs, .done hnext, rfl, hbs⟩
    | true =>
      obtain ⟨⟨update, behind⟩, hupdate, h⟩ := bind_eq_ok.mp h
      obtain ⟨⟨value, _⟩, hvalue, hupdate⟩ := bind_eq_ok.mp hupdate
      obtain ⟨rfl, rfl⟩ := ok_pair_inj.mp hupdate
      obtain ⟨texts, bs, htexts, rfl, hbs⟩ := ih (fun n hn => hms n (List.mem_cons_of_mem _ hn)) h
      have hpassed := hms m (List.mem_cons_self ..) depth hvalue
      exact ⟨front :: texts, (value, bs), .item hnext hpassed htexts, rfl, ⟨_, hvalue⟩, hbs⟩

theorem readElements_of_items {index : Nat} {ms : List (Member ρ)} (hms : ∀ m ∈ ms, m.Skips)
    {texts : List (List Char)} (htexts : ListedItems texts (index == 0) cs rest) {bs : Values ms}
    (h : Fills depth ms texts bs) :
    r.readElements depth index ms a cs = .ok (fill ms bs a, rest) := by
  induction ms generalizing index a cs texts with
  | nil =>
    obtain rfl : texts = [] := h
    cases htexts with
    | done closed =>
      rw [readElements, endOfList_of_nextElement closed]
      rfl
  | cons m ms ih =>
    obtain ⟨hvalue, hothers⟩ := h
    cases htexts with
    | done closed =>
      have hrest : r.withoutRest index (m :: ms) a = .ok (fill (m :: ms) bs a) :=
        withoutRest_of_fills ⟨hvalue, hothers⟩
      rw [readElements, closed, ok_bind]
      simp only [hrest, ok_bind]
      rfl
    | @item _ _ _ front _ _ next value others =>
      obtain ⟨behind, hread⟩ := hvalue
      obtain rfl := Except.ok.inj ((hms m (List.mem_cons_self ..) depth hread).symm.trans value)
      have hupdate : m.readUpdate depth front = .ok ((m.set · bs.1), behind) := by
        rw [Member.readUpdate, hread]
        rfl
      rw [readElements, next, ok_bind]
      simp only [hupdate, ok_bind]
      exact ih (fun n hn => hms n (List.mem_cons_of_mem _ hn)) others hothers

/-- A list is read as a record without a place for unknown members if its items make the record. -/
theorem read_list_iff (hr : r.Lawful height) (hclosed : r.remainder = none)
    (hskips : ∀ m ∈ r.members, m.Skips) {front : List Char} (hfront : skipSpace cs = '[' :: front) :
    r.read (depth + 1) cs = .ok (a, rest) ↔
      ∃ texts, ListedItems texts true front rest ∧ r.MadeOfItems depth texts a := by
  have hread : r.read (depth + 1) cs = r.readElements depth 0 r.members r.blank front := by
    rw [read, hfront]
    simp only [hclosed, Option.isSome_none, Bool.false_eq_true, if_false]
  rw [hread]
  constructor
  · intro h
    obtain ⟨texts, bs, htexts, rfl, hbs⟩ := items_of_readElements hskips h
    -- the record is the values that were read
    have hmake : fill r.members bs r.blank = r.make bs [] := by rw [make, hclosed]
    rw [← hr.collect_make bs [], ← hmake] at hbs
    obtain ⟨hfits, hgives⟩ := fills_collect_iff.mp hbs
    exact ⟨texts, htexts, hfits, hgives⟩
  · rintro ⟨texts, htexts, hmade⟩
    have hfills := fills_collect_iff.mpr ⟨hmade.fits, hmade.gives⟩
    have hmake := hr.make_collect a
    rw [make, hclosed] at hmake
    rw [readElements_of_items hskips htexts hfills]
    exact congrArg (fun b => Except.ok (b, rest)) hmake

/-- Lists of the same length make the same record if their items are read alike. -/
theorem MadeOfItems.of_items {texts others : List (List Char)}
    (hlength : others.length = texts.length)
    (h : ∀ (i : Nat) (m : Member ρ) text other, r.members[i]? = some m → texts[i]? = some text →
      others[i]? = some other → m.Reads depth text (m.get a) → m.Reads depth other (m.get a))
    (hmade : r.MadeOfItems depth texts a) : r.MadeOfItems depth others a where
  fits := hlength ▸ hmade.fits
  gives i m hm := by
    have hgives := hmade.gives i m hm
    cases hother : others[i]? with
    | none =>
      rw [List.getElem?_eq_none_iff, hlength, ← List.getElem?_eq_none_iff] at hother
      rwa [hother] at hgives
    | some other =>
      obtain ⟨hi, -⟩ := List.getElem?_eq_some_iff.mp hother
      have htext := List.getElem?_eq_getElem (hlength ▸ hi)
      rw [htext] at hgives
      exact h i m _ other hm htext hother hgives

include hskips hlocal

/-- Items make the record where they stand as they do on their own. -/
theorem madeOfItems_opens_iff {texts : List (List Char)} {ws : List WrittenValue}
    (h : List.Forall₂ (fun text w => WrittenValue.Opens w text) texts ws) :
    r.MadeOfItems depth texts a ↔ r.MadeOfItems depth (valueTexts ws) a := by
  have hlength : texts.length = (valueTexts ws).length := by
    rw [valueTexts, List.length_map]
    exact h.length_eq
  have hread : ∀ {i : Nat} {m : Member ρ} {text value : List Char}, r.members[i]? = some m →
      texts[i]? = some text → (valueTexts ws)[i]? = some value →
      (m.Reads depth text (m.get a) ↔ m.Reads depth value (m.get a)) := by
    intro i m text value hm htext hvalue
    obtain ⟨w, hw, hopens⟩ := getElem?_of_forall₂ h htext
    rw [valueTexts, List.getElem?_map, hw] at hvalue
    obtain rfl := Option.some.inj hvalue
    have hmem := List.mem_of_getElem? hm
    exact (hlocal m hmem depth).opens_iff (hskips m hmem depth) hopens
  constructor
  · refine MadeOfItems.of_items hlength.symm ?_
    intro i m text value hm htext hvalue
    exact (hread hm htext hvalue).mp
  · refine MadeOfItems.of_items hlength ?_
    intro i m value text hm hvalue htext
    exact (hread hm htext hvalue).mpr

/-- Written values are read as the record that they make on their own. -/
theorem read_items_iff (hr : r.Lawful height) (hclosed : r.remainder = none)
    (ws : List WrittenValue) {before gap : List Char} (hbefore : Blank before) (hgap : Blank gap)
    {behind : List Char} :
    r.read (depth + 1) (before ++ '[' :: (joined (valueTexts ws) ++ (gap ++ ']' :: rest))) =
      .ok (a, behind) ↔ behind = rest ∧ r.MadeOfItems depth (valueTexts ws) a := by
  rw [read_list_iff hr hclosed hskips (skipSpace_token hbefore (by decide) _)]
  obtain ⟨texts, htexts, hopens⟩ := listedItems_written ws hgap rest
  constructor
  · rintro ⟨others, hothers, hmade⟩
    obtain ⟨rfl, rfl⟩ := htexts.unique hothers
    exact ⟨rfl, (madeOfItems_opens_iff hskips hlocal hopens).mp hmade⟩
  · rintro ⟨rfl, hmade⟩
    exact ⟨texts, htexts, (madeOfItems_opens_iff hskips hlocal hopens).mpr hmade⟩

theorem reads_list_iff (hr : r.Lawful height) (hclosed : r.remainder = none)
    {ws : List WrittenValue} (h : SpellsList cs ws) :
    Step.Reads (r.read (depth + 1)) cs a ↔ r.MadeOfItems depth (valueTexts ws) a := by
  obtain ⟨before, gap, after, rfl, hbefore, hgap, -⟩ := h
  constructor
  · rintro ⟨rest, hread⟩
    exact ((read_items_iff hskips hlocal hr hclosed ws hbefore hgap).mp hread).2
  · intro hmade
    exact ⟨after, (read_items_iff hskips hlocal hr hclosed ws hbefore hgap).mpr ⟨rfl, hmade⟩⟩

end Items

/-! ## Wherever a record stands -/

theorem read_skipSpace (r : Record ρ) (depth : Nat) (cs : List Char) :
    r.read depth (skipSpace cs) = r.read depth cs := by
  simp only [read, skipSpace_skipSpace]

/-- A record is read from an object or, without a place for unknown members, from a list, and opens
one container. -/
theorem starts_of_read (h : r.read depth cs = .ok (a, rest)) :
    ∃ inner, depth = inner + 1 ∧ ∃ front, skipSpace cs = '\x7b' :: front ∨
      (r.remainder = none ∧ skipSpace cs = '[' :: front) := by
  unfold read at h
  split at h
  · cases h
  · rename_i front hbrace
    cases depth with
    | zero => cases h
    | succ depth => exact ⟨depth, rfl, front, Or.inl hbrace⟩
  · rename_i front hbracket
    split at h
    · cases h
    · rename_i hopen
      cases depth with
      | zero => cases h
      | succ depth => exact ⟨depth, rfl, front, Or.inr ⟨by simpa using hopen, hbracket⟩⟩
  · cases h

include hskips in
/-- A text that is read as a record is an object of written members or a list of written values. -/
theorem spelled_of_ofText (hr : r.Lawful height) {text : String}
    (h : r.codec.ofText text = .ok a) : (∃ ws, SpellsObject text.toList ws) ∨
      (r.remainder = none ∧ ∃ ws, SpellsList text.toList ws) := by
  obtain ⟨⟨_, rest⟩, hread, h⟩ := bind_eq_ok.mp h
  obtain ⟨_, hend, h⟩ := bind_eq_ok.mp h
  obtain rfl := pure_eq_ok.mp h
  have hrest := finish_eq_ok.mp hend
  replace hread : r.read nestingLimit text.toList = .ok (_, rest) := hread
  obtain ⟨inner, hinner, front, hbrace | ⟨hclosed, hbracket⟩⟩ := starts_of_read hread
  · rw [hinner] at hread
    exact Or.inl (exists_spellsObject hskips hr hbrace hread hrest)
  · rw [hinner] at hread
    obtain ⟨texts, htexts, -⟩ := (read_list_iff hr hclosed hskips hbracket).mp hread
    obtain ⟨ws, gap, rfl, hgap, -⟩ := exists_items htexts
    obtain ⟨before, htext, hbefore⟩ := exists_space hbracket
    exact Or.inr ⟨hclosed, ws, before, gap, rest, htext, hbefore, hgap, hrest⟩

include hskips hlocal in
/-- A record is read off its own text. -/
theorem local_codec (hr : r.Lawful height) : r.codec.Local := by
  intro depth
  refine Step.local_of_skipSpace (r.read_skipSpace depth) ?_
  intro cs a rest hread
  replace hread : r.read depth cs = .ok (a, rest) := hread
  obtain ⟨inner, rfl, front, hbrace | ⟨hclosed, hbracket⟩⟩ := starts_of_read hread
  · obtain ⟨ws, gap, rfl, hgap⟩ := exists_members_of_read hskips hr hbrace hread
    rw [← r.read_skipSpace, hbrace] at hread
    obtain ⟨-, hmade⟩ := (read_members_iff hskips hlocal hr ws blank_nil hgap).mp hread
    refine ⟨'\x7b' :: (joined (memberTexts ws) ++ (gap ++ ['\x7d'])), by simp [hbrace], ?_⟩
    intro tail _
    simp only [List.cons_append, List.append_assoc, List.nil_append]
    exact (read_members_iff hskips hlocal hr ws blank_nil hgap).mpr ⟨rfl, hmade⟩
  · obtain ⟨texts, htexts, -⟩ := (read_list_iff hr hclosed hskips hbracket).mp hread
    obtain ⟨ws, gap, rfl, hgap, -⟩ := exists_items htexts
    rw [← r.read_skipSpace, hbracket] at hread
    obtain ⟨-, hmade⟩ := (read_items_iff hskips hlocal hr hclosed ws blank_nil hgap).mp hread
    refine ⟨'[' :: (joined (valueTexts ws) ++ (gap ++ [']'])), by simp [hbracket], ?_⟩
    intro tail _
    simp only [List.cons_append, List.append_assoc, List.nil_append]
    exact (read_items_iff hskips hlocal hr hclosed ws blank_nil hgap).mpr ⟨rfl, hmade⟩

end Record

end RecipeClient.Json
