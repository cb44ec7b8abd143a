import RecipeClient.Proofs.Json.WrittenRecords

/-!
# Spellings of an empty list

A list that may be `null` is empty if its text is `null`, if it is a pair of brackets with nothing
but space between them, or if there is no member for it. Two objects that are the same but for the
spellings of lists that are empty make the same record.

- `SpellsEmpty`: the texts of an empty list
- `Respelled`: objects that spell empty lists in other ways, at any place among the members
- `Record.MadeOf.respelled`: they make the same record
-/

namespace RecipeClient.Json

open Codec Record

/-! ## Lists that may be `null` -/

/-- The text is `null`, with space around it. -/
def SpellsNull (cs : List Char) : Prop :=
  ∃ before after, cs = before ++ ("null".toList ++ after) ∧ Blank before ∧ Blank after

/-- The text is `null` or a list without items, with space around it. -/
def SpellsEmpty (cs : List Char) : Prop := SpellsNull cs ∨ SpellsList cs []

/-- The text is a list of items that the codec reads, with space around it. -/
def Codec.SpellsItems {α : Type} (item : Codec α) (depth : Nat) (cs : List Char) : Prop :=
  ∃ ws, SpellsList cs ws ∧ ∀ w ∈ ws, ∃ a, Step.Reads (item.read depth) w.value a

theorem SpellsNull.head? {cs : List Char} (h : SpellsNull cs) :
    (skipSpace cs).head? = some 'n' := by
  obtain ⟨before, after, rfl, hbefore, -⟩ := h
  rw [skipSpace_null hbefore]
  rfl

theorem SpellsList.head? {cs : List Char} {ws : List WrittenValue} (h : SpellsList cs ws) :
    (skipSpace cs).head? = some '[' := by
  obtain ⟨before, gap, after, rfl, hbefore, -⟩ := h
  rw [skipSpace_token hbefore (by decide)]
  rfl

section Lists

variable {α : Type} {item : Codec α} {depth : Nat} {cs rest : List Char}

theorem Codec.listOrNull_eq_ok {as : List α} : item.listOrNull.read depth cs = .ok (as, rest) ↔
    ∃ o, readOptional (readList item.read) depth cs = .ok (o, rest) ∧ o.getD [] = as := by
  constructor
  · intro h
    obtain ⟨⟨o, _⟩, hread, h⟩ := bind_eq_ok.mp h
    obtain ⟨rfl, rfl⟩ := ok_pair_inj.mp h
    exact ⟨o, hread, rfl⟩
  · rintro ⟨o, hread, rfl⟩
    simp only [Codec.listOrNull, hread, ok_bind]
    rfl

theorem readList_skipSpace (reader : Reader α) :
    readList reader depth (skipSpace cs) = readList reader depth cs := by
  simp only [readList, skipSpace_skipSpace]

/-- Both spellings of the empty list are read as the empty list. -/
theorem Codec.reads_of_spellsEmpty (h : SpellsEmpty cs) :
    Step.Reads (item.listOrNull.read (depth + 1)) cs [] := by
  rcases h with ⟨before, after, rfl, hbefore, -⟩ | hlist
  · exact ⟨after, listOrNull_eq_ok.mpr ⟨none, readOptional_null hbefore after, rfl⟩⟩
  · have hhead : (skipSpace cs).head? ≠ some 'n' := by
      rw [hlist.head?]
      decide
    obtain ⟨before, gap, after, rfl, hbefore, hgap, -⟩ := hlist
    have hread : readList item.read (depth + 1)
        (before ++ '[' :: (joined (valueTexts []) ++ (gap ++ ']' :: after))) = .ok ([], after) := by
      rw [readList, skipSpace_token hbefore (by decide)]
      simp only [valueTexts_nil, joined, List.nil_append, elements,
        nextElement_end_iff.mpr ⟨gap, rfl, hgap⟩, ok_bind]
      rfl
    exact ⟨after, listOrNull_eq_ok.mpr
      ⟨_, (readOptional_iff (readList_skipSpace _) hhead).mpr ⟨[], rfl, hread⟩, rfl⟩⟩

/-- Nothing is read as a list that may be `null` but `null` and lists of items that are read. -/
theorem Codec.spelled_of_listOrNull (hlocal : item.Local) (hskips : item.Skips) (hcs : Passed cs)
    {as : List α} (h : Step.Reads (item.listOrNull.read (depth + 1)) cs as) :
    SpellsNull cs ∨ item.SpellsItems depth cs := by
  obtain ⟨after, hafter, hblank⟩ := hcs
  obtain ⟨rest, h⟩ := h
  -- the space behind the value is what is left
  obtain rfl := Except.ok.inj ((hskips.listOrNull _ h).symm.trans hafter)
  obtain ⟨o, hread, -⟩ := listOrNull_eq_ok.mp h
  by_cases hhead : (skipSpace cs).head? = some 'n'
  · obtain ⟨front, hfront⟩ := List.head?_eq_some_iff.mp hhead
    rw [readOptional_of_null hfront] at hread
    obtain ⟨_, hword, hread⟩ := bind_eq_ok.mp hread
    obtain ⟨rfl, rfl⟩ := ok_pair_inj.mp hread
    obtain rfl := word_front hword
    obtain ⟨before, rfl, hbefore⟩ := exists_space hfront
    exact Or.inl ⟨before, _, rfl, hbefore, hblank⟩
  · obtain ⟨as, rfl, hlist⟩ := (readOptional_iff (readList_skipSpace _) hhead).mp hread
    unfold readList at hlist
    split at hlist
    · cases hlist
    · rename_i hbracket
      obtain ⟨ws, gap, rfl, hgap, hreads⟩ :=
        exists_written_of_elements (hlocal depth) (hskips depth) hlist
      obtain ⟨before, rfl, hbefore⟩ := exists_space hbracket
      refine Or.inr ⟨ws, ⟨before, gap, _, rfl, hbefore, hgap, hblank⟩, ?_⟩
      intro w hw
      obtain ⟨a, -, hread⟩ := exists_of_forall₂ hreads hw
      exact ⟨a, hread⟩
    · cases hlist

end Lists

/-- A member that is a list, by its name and how its items are read. -/
structure ListField where
  name : String
  /-- The type of the items. -/
  {β : Type}
  /-- How an item is read. -/
  item : Codec β

/-- The record has the list as a member that may be `null` or missing. -/
def ListField.In {ρ : Type} (field : ListField) (r : Record ρ) : Prop :=
  ∃ get set, Member.listOrNull field.name field.item get set ∈ r.members

/-! ## Objects and their respellings -/

/-- The member spells one of the lists as an empty one. -/
def WrittenMember.Empties (names : List String) (w : WrittenMember) : Prop :=
  w.key ∈ names ∧ SpellsEmpty w.value

/-- Two objects are the same but for members that spell some of the lists as empty ones, which may
go and come at any place. -/
inductive Respelled (names : List String) : List WrittenMember → List WrittenMember → Prop where
  | nil : Respelled names [] []
  | kept {ws vs : List WrittenMember} (w : WrittenMember) (others : Respelled names ws vs) :
      Respelled names (w :: ws) (w :: vs)
  | dropped {ws vs : List WrittenMember} {w : WrittenMember} (empty : w.Empties names)
      (others : Respelled names ws vs) : Respelled names (w :: ws) vs
  | added {ws vs : List WrittenMember} {w : WrittenMember} (empty : w.Empties names)
      (others : Respelled names ws vs) : Respelled names ws (w :: vs)

/-- None of the lists is spelled twice. -/
def SpelledOnce (names : List String) (ws : List WrittenMember) : Prop :=
  ((ws.filter (·.key ∈ names)).map (·.key)).Nodup

section Respelling

variable {names : List String} {ws vs : List WrittenMember}

theorem Respelled.symm (h : Respelled names ws vs) : Respelled names vs ws := by
  induction h with
  | nil => exact .nil
  | kept w _ ih => exact .kept w ih
  | dropped empty _ ih => exact .added empty ih
  | added empty _ ih => exact .dropped empty ih

/-- A member of one object is one of the other or spells a list as an empty one. -/
theorem Respelled.mem_or_empties (h : Respelled names ws vs) {w : WrittenMember} (hw : w ∈ ws) :
    w ∈ vs ∨ w.Empties names := by
  induction h with
  | nil => cases hw
  | kept u _ ih =>
    rcases List.mem_cons.mp hw with rfl | hw
    · exact Or.inl (List.mem_cons_self ..)
    · exact (ih hw).imp_left (List.mem_cons_of_mem u)
  | dropped empty _ ih =>
    rcases List.mem_cons.mp hw with rfl | hw
    · exact Or.inr empty
    · exact ih hw
  | added empty _ ih => exact (ih hw).imp_left (List.mem_cons_of_mem _)

/-- Keys of other members are the same in both objects. -/
theorem Respelled.keys (h : Respelled names ws vs) :
    (ws.map (·.key)).filter (· ∉ names) = (vs.map (·.key)).filter (· ∉ names) := by
  induction h with
  | nil => rfl
  | kept w _ ih => simp only [List.map_cons, List.filter_cons, ih]
  | dropped empty _ ih => simpa [empty.1] using ih
  | added empty _ ih => simpa [empty.1] using ih

/-- Members that a record does not know are the same in both objects. -/
theorem Respelled.readOutside (h : Respelled names ws vs) {known : String → Bool}
    (hknown : ∀ name ∈ names, known name = true) {depth : Nat} {read : Entries}
    (hread : ReadOutside known depth (ws.map (·.entry)) read) :
    ReadOutside known depth (vs.map (·.entry)) read := by
  induction h generalizing read with
  | nil => exact hread
  | kept w _ ih =>
    cases hread with
    | known old others => exact .known old (ih others)
    | unknown new value others => exact .unknown new value (ih others)
  | dropped empty _ ih =>
    cases hread with
    | known _ others => exact ih others
    | unknown new _ _ => cases (hknown _ empty.1).symm.trans new
  | added empty _ ih => exact .known (hknown _ empty.1) (ih hread)

theorem SpelledOnce.eq_of_key (h : SpelledOnce names ws) {w u : WrittenMember} (hw : w ∈ ws)
    (hu : u ∈ ws) (hname : w.key ∈ names) (hkey : w.key = u.key) : w = u := by
  apply List.inj_on_of_nodup_map h
  · exact List.mem_filter.mpr ⟨hw, by simpa using hname⟩
  · exact List.mem_filter.mpr ⟨hu, by simpa using hkey ▸ hname⟩
  · exact hkey

end Respelling

/-! ## What respelled objects are read as -/

/-- The value stands for a missing one, and both spellings of an empty list are read as it. -/
structure Member.TakesEmpty {ρ : Type} (m : Member ρ) (b : m.β) : Prop where
  missing : m.absence.inObject? = some b
  reads {depth : Nat} {cs : List Char} : SpellsEmpty cs → m.Reads (depth + 1) cs b

namespace Record

variable {ρ : Type} {r : Record ρ} {lists : List ListField} {depth : Nat} {a : ρ}
  {names : List String} {ws vs : List WrittenMember}

theorem takesEmpty_of_name (hnames : (r.members.map (·.name)).Nodup)
    (hlists : ∀ field ∈ lists, field.In r) {m : Member ρ} (hm : m ∈ r.members)
    (hname : m.name ∈ lists.map (·.name)) : ∃ b, m.TakesEmpty b := by
  obtain ⟨field, hfield, hname⟩ := List.mem_map.mp hname
  obtain ⟨get, set, hlist⟩ := hlists field hfield
  -- only one member has the name
  obtain rfl := List.inj_on_of_nodup_map hnames hlist hm hname
  exact ⟨[], rfl, Codec.reads_of_spellsEmpty⟩

theorem knows_of_list (hlists : ∀ field ∈ lists, field.In r) {name : String}
    (hname : name ∈ lists.map (·.name)) : r.knows name = true := by
  obtain ⟨field, hfield, rfl⟩ := List.mem_map.mp hname
  obtain ⟨get, set, hlist⟩ := hlists field hfield
  exact knows_name hlist

/-- The value of a member is empty if the object spells it as empty or not at all. -/
theorem MadeOf.get_eq_empty (hmade : r.MadeOf (depth + 1) (ws.map (·.entry)) a) {m : Member ρ}
    (hm : m ∈ r.members) {b : m.β} (hb : m.TakesEmpty b)
    (h : ∀ w ∈ ws, w.key = m.name → SpellsEmpty w.value) : m.get a = b := by
  by_cases hex : ∃ w ∈ ws, w.key = m.name
  · obtain ⟨w, hw, hkey⟩ := hex
    have hentry : (m.name, w.value) ∈ ws.map (·.entry) :=
      List.mem_map.mpr ⟨w, hw, by rw [← hkey]; rfl⟩
    obtain ⟨_, hread⟩ := hmade.present m hm _ hentry
    have hreads : m.Reads (depth + 1) w.value b := hb.reads (h w hw hkey)
    obtain ⟨_, hempty⟩ := hreads
    exact (ok_pair_inj.mp (hread.symm.trans hempty)).1
  · have hmissing : ∀ text, (m.name, text) ∉ ws.map (·.entry) := by
      intro text hmem
      obtain ⟨w, hw, heq⟩ := List.mem_map.mp hmem
      exact hex ⟨w, hw, congrArg Prod.fst heq⟩
    exact Option.some.inj ((hmade.missing m hm hmissing).symm.trans hb.missing)

/-- The keys that a record knows still occur once if the lists do. -/
theorem once_of_respelled (h : Respelled names ws vs) (hlists : SpelledOnce names vs)
    (honce : (r.knownKeys (ws.map (·.entry))).Nodup) :
    (r.knownKeys (vs.map (·.entry))).Nodup := by
  have hkeys : ∀ us : List WrittenMember,
      r.knownKeys (us.map (·.entry)) = (us.map (·.key)).filter r.knows := by
    intro us
    rw [knownKeys, List.map_map]
    rfl
  rw [hkeys] at honce ⊢
  rw [List.nodup_iff_count_le_one] at honce ⊢
  intro key
  cases hknown : r.knows key with
  | false =>
    rw [List.count_eq_zero_of_not_mem (by simp [hknown])]
    exact Nat.zero_le 1
  | true =>
    rw [List.count_filter hknown]
    by_cases hkey : key ∈ names
    · -- the key of a list
      have hcount := List.nodup_iff_count_le_one.mp hlists key
      have hfilter : (vs.filter (·.key ∈ names)).map (·.key) =
          (vs.map (·.key)).filter (· ∈ names) := by
        rw [List.filter_map]
        rfl
      rwa [hfilter, List.count_filter (by simpa using hkey)] at hcount
    · -- any other key occurs as often as before
      have hcount := honce key
      have hother : ∀ keys : List String, (keys.filter (· ∉ names)).count key = keys.count key :=
        fun keys => List.count_filter (by simpa using hkey)
      rw [List.count_filter hknown, ← hother, h.keys, hother] at hcount
      exact hcount

/-- Respelled objects make the same record. -/
theorem MadeOf.respelled (hnames : (r.members.map (·.name)).Nodup)
    (hlists : ∀ field ∈ lists, field.In r) (h : Respelled (lists.map (·.name)) ws vs)
    (honce : SpelledOnce (lists.map (·.name)) vs)
    (hmade : r.MadeOf (depth + 1) (ws.map (·.entry)) a) :
    r.MadeOf (depth + 1) (vs.map (·.entry)) a where
  once := once_of_respelled h honce hmade.once
  present m hm text hmem := by
    obtain ⟨w, hw, heq⟩ := List.mem_map.mp hmem
    obtain ⟨hkey, rfl⟩ : w.key = m.name ∧ w.value = text := Prod.mk.inj heq
    rcases h.symm.mem_or_empties hw with hold | ⟨hname, hempty⟩
    · exact hmade.present m hm w.value (List.mem_map.mpr ⟨w, hold, heq⟩)
    · obtain ⟨b, hb⟩ := takesEmpty_of_name hnames hlists hm (hkey ▸ hname)
      -- the list was spelled as an empty one or not at all before, or it would be there twice now
      have hget : m.get a = b := by
        apply hmade.get_eq_empty hm hb
        intro u hu hukey
        rcases h.mem_or_empties hu with hnew | hempties
        · obtain rfl := honce.eq_of_key hw hnew hname (hkey.trans hukey.symm)
          exact hempty
        · exact hempties.2
      rw [hget]
      exact hb.reads hempty
  missing m hm hmissing := by
    have hgone : ∀ w ∈ vs, w.key ≠ m.name := by
      intro w hw hkey
      exact hmissing w.value (List.mem_map.mpr ⟨w, hw, by rw [← hkey]; rfl⟩)
    by_cases hex : ∃ w ∈ ws, w.key = m.name
    · obtain ⟨w, hw, hkey⟩ := hex
      have hempties : ∀ u ∈ ws, u.key = m.name → u.Empties (lists.map (·.name)) := by
        intro u hu hukey
        exact (h.mem_or_empties hu).resolve_left fun hnew => hgone u hnew hukey
      obtain ⟨b, hb⟩ := takesEmpty_of_name hnames hlists hm (hkey ▸ (hempties w hw hkey).1)
      rw [hmade.get_eq_empty hm hb fun u hu hukey => (hempties u hu hukey).2]
      exact hb.missing
    · apply hmade.missing m hm
      intro text hmem
      obtain ⟨w, hw, heq⟩ := List.mem_map.mp hmem
      exact hex ⟨w, hw, congrArg Prod.fst heq⟩
  unknown hkeeps := by
    obtain ⟨read, hread, hrest⟩ := hmade.unknown hkeeps
    exact ⟨read, h.readOutside (fun name hname => knows_of_list hlists hname) hread, hrest⟩

end Record

end RecipeClient.Json
