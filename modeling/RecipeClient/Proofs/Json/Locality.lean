import RecipeClient.Proofs.Json.ObjectReading
import RecipeClient.Proofs.Json.TextAgreement
import RecipeClient.Proofs.Json.Written

/-!
# Reading depends on the text of the value only

What a codec reads depends neither on the space in front of a value nor on what stands behind it.
So a value that stands in an object or a list is read there as it is read on its own.

- `Codec.Local`: the law, with one lemma for each way of building a codec
- `Step.Local.opens_iff`: a value in its place and on its own
- `elements_written_iff`: a list is read value by value
-/

namespace RecipeClient.Json

/-- The value is read off its own text, with any space in front of it and whatever follows it. -/
def Step.Local {α : Type} (step : Step α) : Prop :=
  ∀ ⦃cs a rest⦄, step cs = .ok (a, rest) → ∃ front, skipSpace cs = front ++ rest ∧
    ∀ space tail, Blank space → Follows tail → step (space ++ (front ++ tail)) = .ok (a, tail)

/-- What the codec reads depends on the text of the value only. -/
def Codec.Local {α : Type} (codec : Codec α) : Prop := ∀ depth, Step.Local (codec.read depth)

section Steps

variable {α : Type} {step : Step α}

/-- A step that drops the space in front is local if it is so where there is none. -/
theorem Step.local_of_skipSpace (hspace : ∀ cs, step (skipSpace cs) = step cs)
    (h : ∀ {cs a rest}, step cs = .ok (a, rest) → ∃ front, skipSpace cs = front ++ rest ∧
      ∀ tail, Follows tail → step (front ++ tail) = .ok (a, tail)) : step.Local := by
  intro cs a rest hread
  obtain ⟨front, hfront, htake⟩ := h hread
  refine ⟨front, hfront, ?_⟩
  intro space tail hblank ht
  rw [← hspace, skipSpace_append hblank, hspace]
  exact htake tail ht

/-- What is read off a text on its own leaves the space behind the value. -/
theorem WrittenValue.blank_of_read (hskips : step.Skips) (w : WrittenValue) {a : α}
    {rest : List Char} (h : step w.value = .ok (a, rest)) : Blank rest := by
  obtain ⟨after, hskip, hafter⟩ := w.passed
  obtain rfl := Except.ok.inj ((hskips h).symm.trans hskip)
  exact hafter

/-- The text of a value starts with a character that is no space. -/
theorem skipSpace_front (hskips : step.Skips) {a : α} {front : List Char}
    (htake : ∀ space tail, Blank space → Follows tail →
      step (space ++ (front ++ tail)) = .ok (a, tail)) {cs rest : List Char}
    (hfront : skipSpace cs = front ++ rest) (tail : List Char) :
    skipSpace (front ++ tail) = front ++ tail := by
  cases front with
  | nil =>
    -- nothing can be read where there is nothing
    have hnil := hskips (htake [] [] blank_nil blank_nil.follows)
    cases hnil
  | cons c front => exact skipSpace_cons (isSpace_of_skipSpace hfront) _

/-- A value that stands among others is read as it is read on its own. -/
theorem Step.Local.opens_iff (hlocal : step.Local) (hskips : step.Skips) {w : WrittenValue}
    {text : List Char} (h : w.Opens text) {a : α} :
    (∃ rest, step text = .ok (a, rest)) ↔ ∃ rest, step w.value = .ok (a, rest) := by
  obtain ⟨space, tail, heq, hspace, ht⟩ := h
  constructor
  · rintro ⟨rest, hread⟩
    obtain ⟨front, hfront, htake⟩ := hlocal hread
    obtain ⟨before, rfl, hbefore⟩ := exists_space hfront
    -- what is left behind the value is the space behind it and what follows
    obtain ⟨after, hafter, hskip⟩ := w.skipValue_append ht
    rw [← heq] at hskip
    obtain rfl := Except.ok.inj ((skipValue_space hspace (hskips hread)).symm.trans hskip)
    have hvalue : w.value = (space ++ before) ++ (front ++ after) := by
      apply List.append_cancel_right (show _ ++ tail = _ ++ tail from ?_)
      rw [← heq]
      simp
    refine ⟨after, ?_⟩
    rw [hvalue]
    exact htake _ after (hspace.append hbefore) hafter.follows
  · rintro ⟨rest, hread⟩
    have hrest := w.blank_of_read hskips hread
    obtain ⟨front, hfront, htake⟩ := hlocal hread
    obtain ⟨before, hvalue, hbefore⟩ := exists_space hfront
    have htext : skipSpace text = front ++ (rest ++ tail) := by
      rw [← skipSpace_append hspace, heq, hvalue, List.append_assoc, skipSpace_append hbefore,
        List.append_assoc, skipSpace_front hskips htake hfront]
    obtain ⟨gap, rfl, hgap⟩ := exists_space htext
    exact ⟨_, htake gap _ hgap (hrest.follows_append ht)⟩

end Steps

/-! ## Scalars -/

section Scalars

variable {α : Type} {depth : Nat}

theorem local_readString (depth : Nat) (expected : String) :
    Step.Local (readString expected depth) := by
  apply Step.local_of_skipSpace
  · intro cs
    simp only [readString, skipSpace_skipSpace]
  · intro cs s rest h
    unfold readString at h
    split at h
    · cases h
    · rename_i hquote
      obtain ⟨front, rfl, hfront⟩ := scanString_front h
      refine ⟨'"' :: front, hquote, ?_⟩
      intro tail _
      rw [List.cons_append, readString, skipSpace_cons (by decide)]
      exact hfront tail
    · cases h

theorem readNumber_digit (expected : String) {c : Char} (hc : c.isDigit = true) (cs : List Char) :
    readNumber expected depth (c :: cs) = scanNumber false (c :: cs) := by
  have hminus : c ≠ '-' := by
    rintro rfl
    exact absurd hc (by decide)
  rw [readNumber, skipSpace_cons (not_isSpace_of_isDigit hc)]
  simp only [hc, if_true]

theorem local_readNumber (depth : Nat) (expected : String) :
    Step.Local (readNumber expected depth) := by
  apply Step.local_of_skipSpace
  · intro cs
    simp only [readNumber, skipSpace_skipSpace]
  · intro cs n rest h
    unfold readNumber at h
    split at h
    · cases h
    · rename_i hminus
      obtain ⟨front, rfl, hfront⟩ := scanNumber_front h
      refine ⟨'-' :: front, hminus, ?_⟩
      intro tail ht
      rw [List.cons_append, readNumber, skipSpace_cons (by decide)]
      exact hfront tail ht
    · rename_i c behind _ hfront
      split at h
      · rename_i hc
        obtain ⟨front, rfl, hnumber⟩ := scanNumber_front_cons h
        refine ⟨c :: front, hfront, ?_⟩
        intro tail ht
        rw [List.cons_append, readNumber_digit expected hc]
        exact hnumber tail ht
      · cases h

theorem readUnit_iff {cs rest : List Char} : readUnit cs = .ok ((), rest) ↔
    ∃ space, cs = space ++ ("null".toList ++ rest) ∧ Blank space := by
  constructor
  · intro h
    unfold readUnit at h
    split at h
    · cases h
    · rename_i hfront
      obtain ⟨_, hword, h⟩ := bind_eq_ok.mp h
      obtain ⟨_, rfl⟩ := ok_pair_inj.mp h
      obtain rfl := word_front hword
      exact exists_space hfront
    · cases h
  · rintro ⟨space, rfl, hspace⟩
    simp only [readUnit, skipSpace_null hspace, word_append, ok_bind]
    rfl

/-- A name may be the key of an object that holds a `null` and nothing else. -/
theorem readNamed_brace_iff {named : List (String × α)} {front rest : List Char} {a : α} :
    readNamed named (depth + 1) ('\x7b' :: front) = .ok (a, rest) ↔ ∃ name text more,
      readLabel front = .ok (name, text) ∧ readNamed.find named name = .ok a ∧
      readUnit text = .ok ((), more) ∧ skipSpace more = '\x7d' :: rest := by
  rw [readNamed, skipSpace_cons (by decide)]
  constructor
  · intro h
    obtain ⟨⟨key, behind⟩, hnext, h⟩ := bind_eq_ok.mp h
    cases key with
    | none => cases h
    | some name =>
      obtain ⟨_, hfind, h⟩ := bind_eq_ok.mp h
      obtain ⟨text, hcolon, h⟩ := bind_eq_ok.mp h
      obtain ⟨⟨_, more⟩, hunit, h⟩ := bind_eq_ok.mp h
      have hlabel := nextKey_first_iff.mp ⟨_, hnext, hcolon⟩
      dsimp only at h
      split at h
      · cases h
      · rename_i hclosed
        obtain ⟨rfl, rfl⟩ := ok_pair_inj.mp h
        exact ⟨name, text, more, hlabel, hfind, hunit, hclosed⟩
      · cases h
  · rintro ⟨name, text, more, hlabel, hfind, hunit, hclosed⟩
    obtain ⟨behind, hnext, hcolon⟩ := nextKey_first_iff.mpr hlabel
    simp only [hnext, ok_bind, hfind, hcolon, hunit, hclosed]
    rfl

theorem local_readNamed {named : List (String × α)} : Step.Local (readNamed named depth) := by
  have hspace : ∀ cs, readNamed named depth (skipSpace cs) = readNamed named depth cs := by
    intro cs
    simp only [readNamed, skipSpace_skipSpace]
  apply Step.local_of_skipSpace hspace
  intro cs a rest h
  have hread := h
  unfold readNamed at h
  split at h
  · cases h
  · rename_i hquote
    obtain ⟨⟨name, _⟩, hscan, hfound⟩ := bind_eq_ok.mp h
    obtain ⟨_, hfind, hname⟩ := bind_eq_ok.mp hfound
    obtain ⟨rfl, rfl⟩ := ok_pair_inj.mp hname
    obtain ⟨string, rfl, hstring⟩ := scanString_front hscan
    refine ⟨'"' :: string, hquote, ?_⟩
    intro tail _
    rw [List.cons_append, readNamed, skipSpace_cons (by decide)]
    simp only [hstring, ok_bind, hfind]
    rfl
  · rename_i hbrace
    rw [← hspace, hbrace] at hread
    cases depth with
    | zero => cases h
    | succ depth =>
      obtain ⟨name, text, more, hlabel, hfind, hunit, hclosed⟩ := readNamed_brace_iff.mp hread
      obtain ⟨label, rfl, hlabel'⟩ := readLabel_front hlabel
      obtain ⟨space, rfl, hblank⟩ := readUnit_iff.mp hunit
      obtain ⟨gap, rfl, hgap⟩ := exists_space hclosed
      refine ⟨'\x7b' :: (label ++ (space ++ ("null".toList ++ (gap ++ ['\x7d'])))), ?_, ?_⟩
      · simp only [hbrace, List.append_assoc, List.cons_append, List.nil_append]
      · intro tail _
        simp only [List.append_assoc, List.cons_append, List.nil_append]
        exact readNamed_brace_iff.mpr ⟨name, _, _, hlabel' _, hfind,
          readUnit_iff.mpr ⟨space, rfl, hblank⟩, skipSpace_token hgap (by decide) tail⟩
  · cases h

end Scalars

/-! ## Lists -/

section Lists

variable {α : Type} {step : Step α}

/-- The step reads the value from the front of the text. -/
def Step.Reads (step : Step α) (text : List Char) (a : α) : Prop :=
  ∃ rest, step text = .ok (a, rest)

theorem listedItems_of_elements (hskips : step.Skips) {fuel : Nat} {first : Bool}
    {cs rest : List Char} {as : List α} (h : elements step fuel first cs = .ok (as, rest)) :
    ∃ texts, ListedItems texts first cs rest ∧ List.Forall₂ step.Reads texts as := by
  induction fuel generalizing first cs as with
  | zero => cases h
  | succ fuel ih =>
    obtain ⟨⟨more, front⟩, hnext, h⟩ := bind_eq_ok.mp h
    cases more with
    | false =>
      obtain ⟨rfl, rfl⟩ := ok_pair_inj.mp h
      exact ⟨[], .done hnext, .nil⟩
    | true =>
      obtain ⟨⟨a, behind⟩, hread, h⟩ := bind_eq_ok.mp h
      obtain ⟨⟨others, _⟩, hothers, h⟩ := bind_eq_ok.mp h
      obtain ⟨rfl, rfl⟩ := ok_pair_inj.mp h
      obtain ⟨texts, htexts, hreads⟩ := ih hothers
      exact ⟨_, .item hnext (hskips hread) htexts, .cons ⟨behind, hread⟩ hreads⟩

theorem length_nextElement_le {first : Bool} {cs front : List Char}
    (h : nextElement first cs = .ok (true, front)) : front.length ≤ cs.length := by
  cases first with
  | true =>
    obtain ⟨rfl, _⟩ := nextElement_first_iff.mp h
    exact length_skipSpace_le cs
  | false =>
    obtain ⟨space, tail, rfl, _, rfl, _⟩ := nextElement_later_iff.mp h
    have hle := length_skipSpace_le tail
    simp only [List.length_append, List.length_cons]
    omega

theorem elements_of_listedItems (hskips : step.Skips) {texts : List (List Char)} {first : Bool}
    {cs rest : List Char} (h : ListedItems texts first cs rest) {as : List α}
    (hreads : List.Forall₂ step.Reads texts as) {fuel : Nat} (hfuel : cs.length < fuel) :
    elements step fuel first cs = .ok (as, rest) := by
  induction h generalizing as fuel with
  | done closed =>
    cases hreads
    cases fuel with
    | zero => exact absurd hfuel (Nat.not_lt_zero _)
    | succ fuel =>
      rw [elements, closed]
      rfl
  | @item texts first cs front behind rest next value others ih =>
    cases hreads with
    | cons hread hreads =>
      cases fuel with
      | zero => exact absurd hfuel (Nat.not_lt_zero _)
      | succ fuel =>
        obtain ⟨_, hread⟩ := hread
        obtain rfl := Except.ok.inj ((hskips hread).symm.trans value)
        have hfront := length_nextElement_le next
        have hbehind := length_skipValue_lt value
        have hothers := ih hreads (show _ < fuel by omega)
        simp only [elements, next, ok_bind, hread, hothers]
        rfl

theorem ListedItems.unique {texts others : List (List Char)} {first : Bool}
    {cs rest behind : List Char} (h : ListedItems texts first cs rest)
    (hother : ListedItems others first cs behind) : texts = others ∧ rest = behind := by
  induction h generalizing others with
  | done closed =>
    cases hother with
    | done closed' =>
      obtain ⟨-, rfl⟩ := ok_pair_inj.mp (closed.symm.trans closed')
      exact ⟨rfl, rfl⟩
    | item next _ _ => cases closed.symm.trans next
  | item next value _ ih =>
    cases hother with
    | done closed => cases closed.symm.trans next
    | item next' value' others' =>
      obtain ⟨-, rfl⟩ := ok_pair_inj.mp (next.symm.trans next')
      obtain rfl := Except.ok.inj (value.symm.trans value')
      obtain ⟨rfl, rfl⟩ := ih others'
      exact ⟨rfl, rfl⟩

/-- A list is read value by value, each as it is read on its own. -/
theorem elements_written_iff (hlocal : step.Local) (hskips : step.Skips) (ws : List WrittenValue)
    {gap : List Char} (hgap : Blank gap) {rest behind : List Char} {as : List α} {fuel : Nat}
    (hfuel : (joined (valueTexts ws) ++ (gap ++ ']' :: rest)).length < fuel) :
    elements step fuel true (joined (valueTexts ws) ++ (gap ++ ']' :: rest)) = .ok (as, behind) ↔
      behind = rest ∧ List.Forall₂ (fun w => step.Reads w.value) ws as := by
  obtain ⟨texts, htexts, hopens⟩ := listedItems_written ws hgap rest
  have htransfer : List.Forall₂ step.Reads texts as ↔
      List.Forall₂ (fun w => step.Reads w.value) ws as := by
    clear htexts hfuel
    induction hopens generalizing as with
    | nil => exact ⟨fun h => by cases h; exact .nil, fun h => by cases h; exact .nil⟩
    | cons hopen _ ih =>
      constructor
      · rintro (_ | ⟨hread, hreads⟩)
        exact .cons ((hlocal.opens_iff hskips hopen).mp hread) (ih.mp hreads)
      · rintro (_ | ⟨hread, hreads⟩)
        exact .cons ((hlocal.opens_iff hskips hopen).mpr hread) (ih.mpr hreads)
  constructor
  · intro h
    obtain ⟨others, hothers, hreads⟩ := listedItems_of_elements hskips h
    obtain ⟨rfl, rfl⟩ := htexts.unique hothers
    exact ⟨rfl, htransfer.mp hreads⟩
  · rintro ⟨rfl, hreads⟩
    exact elements_of_listedItems hskips htexts (htransfer.mpr hreads) hfuel

/-- Behind the bracket of a list that is read stand written values. -/
theorem exists_written_of_elements (hlocal : step.Local) (hskips : step.Skips) {fuel : Nat}
    {cs rest : List Char} {as : List α} (h : elements step fuel true cs = .ok (as, rest)) :
    ∃ ws gap, cs = joined (valueTexts ws) ++ (gap ++ ']' :: rest) ∧ Blank gap ∧
      List.Forall₂ (fun w => step.Reads w.value) ws as := by
  obtain ⟨texts, htexts, hreads⟩ := listedItems_of_elements hskips h
  obtain ⟨ws, gap, rfl, hgap, -⟩ := exists_items htexts
  have hread := elements_of_listedItems hskips htexts hreads (Nat.lt_succ_self _)
  exact ⟨ws, gap, rfl, hgap,
    ((elements_written_iff hlocal hskips ws hgap (Nat.lt_succ_self _)).mp hread).2⟩

theorem local_readList {reader : Reader α} (hlocal : ∀ depth, Step.Local (reader depth))
    (hskips : ∀ depth, Step.Skips (reader depth)) (depth : Nat) :
    Step.Local (readList reader depth) := by
  apply Step.local_of_skipSpace
  · intro cs
    simp only [readList, skipSpace_skipSpace]
  · intro cs as rest h
    unfold readList at h
    split at h
    · cases h
    · rename_i hbracket
      cases depth with
      | zero => cases h
      | succ depth =>
        obtain ⟨ws, gap, rfl, hgap, hreads⟩ :=
          exists_written_of_elements (hlocal depth) (hskips depth) h
        refine ⟨'[' :: (joined (valueTexts ws) ++ (gap ++ [']'])), ?_, ?_⟩
        · simp [hbracket]
        · intro tail _
          simp only [List.cons_append, List.append_assoc, List.nil_append]
          rw [readList, skipSpace_cons (by decide)]
          exact (elements_written_iff (hlocal depth) (hskips depth) ws hgap
            (Nat.lt_succ_self _)).mpr ⟨rfl, hreads⟩
    · cases h

theorem readOptional_null {reader : Reader α} {depth : Nat} {space : List Char}
    (hspace : Blank space) (tail : List Char) :
    readOptional reader depth (space ++ ("null".toList ++ tail)) = .ok (none, tail) := by
  rw [Codec.readOptional_of_null (skipSpace_null hspace tail), word_append, ok_bind]

/-- What does not start like `null` is read as what the reader reads. -/
theorem readOptional_iff {reader : Reader α} {depth : Nat} {cs rest : List Char}
    (hspace : reader depth (skipSpace cs) = reader depth cs)
    (h : (skipSpace cs).head? ≠ some 'n') {o : Option α} :
    readOptional reader depth cs = .ok (o, rest) ↔
      ∃ a, o = some a ∧ reader depth cs = .ok (a, rest) := by
  rw [Codec.readOptional_of_head h, hspace]
  constructor
  · intro hread
    obtain ⟨⟨a, _⟩, hvalue, hread⟩ := bind_eq_ok.mp hread
    obtain ⟨rfl, rfl⟩ := ok_pair_inj.mp hread
    exact ⟨a, rfl, hvalue⟩
  · rintro ⟨a, rfl, hvalue⟩
    rw [hvalue, ok_bind]

theorem local_readOptional {reader : Reader α} {depth : Nat} (hlocal : Step.Local (reader depth))
    (hskips : Step.Skips (reader depth)) : Step.Local (readOptional reader depth) := by
  intro cs o rest h
  by_cases hnull : (skipSpace cs).head? = some 'n'
  · obtain ⟨front, hfront⟩ := List.head?_eq_some_iff.mp hnull
    rw [Codec.readOptional_of_null hfront] at h
    obtain ⟨_, hword, h⟩ := bind_eq_ok.mp h
    obtain ⟨rfl, rfl⟩ := ok_pair_inj.mp h
    obtain rfl := word_front hword
    refine ⟨"null".toList, hfront, ?_⟩
    intro space tail hspace _
    exact readOptional_null hspace tail
  · rw [Codec.readOptional_of_head hnull] at h
    obtain ⟨⟨a, _⟩, hread, h⟩ := bind_eq_ok.mp h
    obtain ⟨rfl, rfl⟩ := ok_pair_inj.mp h
    obtain ⟨front, hfront, htake⟩ := hlocal hread
    rw [skipSpace_skipSpace] at hfront
    refine ⟨front, hfront, ?_⟩
    intro space tail hspace ht
    -- the text of the value starts as before, so it is no `null`
    have hskip : skipSpace (space ++ (front ++ tail)) = front ++ tail := by
      rw [skipSpace_append hspace, skipSpace_front hskips htake hfront]
    have hhead : (skipSpace (space ++ (front ++ tail))).head? ≠ some 'n' := by
      rw [hskip]
      cases front with
      | nil => cases hskips (htake [] [] blank_nil blank_nil.follows)
      | cons c front =>
        rw [hfront] at hnull
        exact hnull
    have hvalue : reader depth (front ++ tail) = .ok (a, tail) := htake [] tail blank_nil ht
    rw [Codec.readOptional_of_head hhead, hskip, hvalue, ok_bind]

end Lists

/-! ## Objects -/

/-- A written member as its key with the text of its value. -/
def WrittenMember.entry (w : WrittenMember) : String × List Char := (w.key, w.value)

section Objects

variable {depth : Nat} {members : List (String × List Char)} {read : Entries}

theorem SkippedMembers.unique {others : List (String × List Char)} {first : Bool}
    {cs rest behind : List Char} (h : SkippedMembers members first cs rest)
    (hother : SkippedMembers others first cs behind) : members = others ∧ rest = behind :=
  ok_pair_inj.mp ((membersOf_spell h (Nat.lt_succ_self _)).symm.trans
    (membersOf_spell hother (Nat.lt_succ_self _)))

theorem membersOf_of_skipped {first : Bool} {cs rest : List Char}
    (h : SkippedMembers members first cs rest)
    (hread : ReadOutside (fun _ => false) depth members read) {fuel : Nat}
    (hfuel : cs.length < fuel) :
    membersOf (Value.read depth) fuel first cs = .ok (read, rest) := by
  induction h generalizing read fuel with
  | done closed =>
    cases hread
    cases fuel with
    | zero => exact absurd hfuel (Nat.not_lt_zero _)
    | succ fuel =>
      rw [membersOf, closed]
      rfl
  | @member _ _ _ _ _ _ behind _ next separated skipped _ ih =>
    cases fuel with
    | zero => exact absurd hfuel (Nat.not_lt_zero _)
    | succ fuel =>
      have hvalue := length_lt_of_skipSpace (colon_eq_ok.mp separated)
      have hbehind := length_skipValue_lt skipped
      have hfront := length_nextKey_lt next
      cases hread with
      | known old _ => cases old
      | unknown _ value others =>
        obtain rfl := Except.ok.inj ((skips_readValue depth value).symm.trans skipped)
        have hothers := ih others (show _ < fuel by omega)
        simp only [membersOf, next, ok_bind, separated, value, hothers]
        rfl

/-- Members are read in an object as they are read on their own. -/
theorem readOutside_stands_iff (hlocal : Step.Local (Value.read depth)) {known : String → Bool}
    {ws : List WrittenMember} (h : List.Forall₂ WrittenMember.Stands members ws) :
    ReadOutside known depth members read ↔ ReadOutside known depth (ws.map (·.entry)) read := by
  induction h generalizing read with
  | nil => exact Iff.rfl
  | @cons m w members ws hstands _ ih =>
    obtain ⟨key, text⟩ := m
    obtain ⟨rfl, hopens⟩ := hstands
    have hread := fun v => hlocal.opens_iff (skips_readValue depth) hopens (a := v)
    constructor
    · intro hm
      cases hm with
      | known old others => exact .known old (ih.mp others)
      | unknown new value others =>
        obtain ⟨_, hvalue⟩ := (hread _).mp ⟨_, value⟩
        exact .unknown new hvalue (ih.mp others)
    · intro hw
      cases hw with
      | known old others => exact .known old (ih.mpr others)
      | unknown new value others =>
        obtain ⟨_, hvalue⟩ := (hread _).mpr ⟨_, value⟩
        exact .unknown new hvalue (ih.mpr others)

theorem readValue_front_list {inner fuel : Nat} (hlocal : Step.Local (Value.read inner))
    {cs rest : List Char} {items : List Value}
    (h : elements (Value.read inner) fuel true cs = .ok (items, rest)) :
    ∃ front, '[' :: cs = front ++ rest ∧
      ∀ tail, Value.read (inner + 1) (front ++ tail) = .ok (.array items, tail) := by
  obtain ⟨ws, gap, rfl, hgap, hreads⟩ :=
    exists_written_of_elements hlocal (skips_readValue inner) h
  refine ⟨'[' :: (joined (valueTexts ws) ++ (gap ++ [']'])), by simp, ?_⟩
  intro tail
  have hread := (elements_written_iff hlocal (skips_readValue inner) ws hgap
    (Nat.lt_succ_self _)).mpr ⟨Eq.refl tail, hreads⟩
  simp only [List.cons_append, List.append_assoc, List.nil_append]
  rw [Value.read_bracket, hread, ok_bind]

theorem readValue_front_object {inner fuel : Nat} (hlocal : Step.Local (Value.read inner))
    {cs rest : List Char} {raw : Entries}
    (h : membersOf (Value.read inner) fuel true cs = .ok (raw, rest)) :
    ∃ front, '\x7b' :: cs = front ++ rest ∧
      ∀ tail, Value.read (inner + 1) (front ++ tail) = .ok (.object raw, tail) := by
  obtain ⟨members, hskipped, hread⟩ := readOutside_of_membersOf h
  obtain ⟨ws, gap, rfl, hgap, hws⟩ := exists_written hskipped
  refine ⟨'\x7b' :: (joined (memberTexts ws) ++ (gap ++ ['\x7d'])), by simp, ?_⟩
  intro tail
  -- the members are as they were, whatever stands behind them
  obtain ⟨others, hskipped', hws'⟩ := skippedMembers_written ws hgap tail
  have hread' := (readOutside_stands_iff hlocal hws').mpr
    ((readOutside_stands_iff hlocal hws).mp hread)
  have hmembers := membersOf_of_skipped hskipped' hread' (Nat.lt_succ_self _)
  simp only [List.cons_append, List.append_assoc, List.nil_append]
  rw [Value.read_brace, hmembers, ok_bind]

theorem local_readValue_of_inner
    (hinner : ∀ inner, depth = inner + 1 → Step.Local (Value.read inner)) :
    Step.Local (Value.read depth) := by
  apply Step.local_of_skipSpace (Value.read_skipSpace depth)
  intro cs v rest h
  rw [Value.read.eq_def] at h
  dsimp only at h
  split at h
  · cases h
  · rename_i hfront
    obtain ⟨_, hword, h⟩ := bind_eq_ok.mp h
    obtain ⟨rfl, rfl⟩ := ok_pair_inj.mp h
    obtain rfl := word_front hword
    exact ⟨"null".toList, hfront, fun tail _ => Value.read_null depth tail⟩
  · rename_i hfront
    obtain ⟨_, hword, h⟩ := bind_eq_ok.mp h
    obtain ⟨rfl, rfl⟩ := ok_pair_inj.mp h
    obtain rfl := word_front hword
    exact ⟨"true".toList, hfront, fun tail _ => Value.read_true depth tail⟩
  · rename_i hfront
    obtain ⟨_, hword, h⟩ := bind_eq_ok.mp h
    obtain ⟨rfl, rfl⟩ := ok_pair_inj.mp h
    obtain rfl := word_front hword
    exact ⟨"false".toList, hfront, fun tail _ => Value.read_false depth tail⟩
  · rename_i hfront
    obtain ⟨⟨n, _⟩, hscan, h⟩ := bind_eq_ok.mp h
    obtain ⟨rfl, rfl⟩ := ok_pair_inj.mp h
    obtain ⟨front, rfl, hnumber⟩ := scanNumber_front hscan
    refine ⟨'-' :: front, hfront, ?_⟩
    intro tail ht
    rw [List.cons_append, Value.read_minus, hnumber tail ht, ok_bind]
  · rename_i hfront
    obtain ⟨⟨s, _⟩, hscan, h⟩ := bind_eq_ok.mp h
    obtain ⟨rfl, rfl⟩ := ok_pair_inj.mp h
    obtain ⟨front, rfl, hstring⟩ := scanString_front hscan
    refine ⟨'"' :: front, hfront, ?_⟩
    intro tail _
    rw [List.cons_append, Value.read_quote, hstring tail, ok_bind]
  · rename_i hfront
    cases depth with
    | zero => cases h
    | succ depth =>
      obtain ⟨⟨items, _⟩, hitems, h⟩ := bind_eq_ok.mp h
      obtain ⟨rfl, rfl⟩ := ok_pair_inj.mp h
      obtain ⟨front, heq, hlist⟩ := readValue_front_list (hinner depth rfl) hitems
      exact ⟨front, hfront.trans heq, fun tail _ => hlist tail⟩
  · rename_i hfront
    cases depth with
    | zero => cases h
    | succ depth =>
      obtain ⟨⟨raw, _⟩, hmembers, h⟩ := bind_eq_ok.mp h
      obtain ⟨rfl, rfl⟩ := ok_pair_inj.mp h
      obtain ⟨front, heq, hobject⟩ := readValue_front_object (hinner depth rfl) hmembers
      exact ⟨front, hfront.trans heq, fun tail _ => hobject tail⟩
  · rename_i c behind _ _ _ _ _ _ _ hfront
    split at h
    · rename_i hc
      obtain ⟨⟨n, _⟩, hscan, h⟩ := bind_eq_ok.mp h
      obtain ⟨rfl, rfl⟩ := ok_pair_inj.mp h
      obtain ⟨front, rfl, hnumber⟩ := scanNumber_front_cons hscan
      refine ⟨c :: front, hfront, ?_⟩
      intro tail ht
      rw [List.cons_append, Value.read_digit _ _ hc, hnumber tail ht, ok_bind]
    · cases h

theorem local_readValue (depth : Nat) : Step.Local (Value.read depth) := by
  induction depth with
  | zero =>
    apply local_readValue_of_inner
    intro inner hinner
    cases hinner
  | succ depth ih =>
    apply local_readValue_of_inner
    intro inner hinner
    obtain rfl := Nat.succ.inj hinner
    exact ih

end Objects

/-! ## Codecs -/

/-- A step is local if what it makes of a text depends on what a local step reads of it. -/
theorem Step.Local.of_read {α β : Type} {step : Step α} {next : Step β} (hlocal : step.Local)
    (hnext : ∀ {cs b rest}, next cs = .ok (b, rest) → ∃ a, step cs = .ok (a, rest) ∧
      ∀ {cs rest}, step cs = .ok (a, rest) → next cs = .ok (b, rest)) : next.Local := by
  intro cs b rest h
  obtain ⟨a, hread, hagain⟩ := hnext h
  obtain ⟨front, hfront, htake⟩ := hlocal hread
  refine ⟨front, hfront, ?_⟩
  intro space tail hspace ht
  exact hagain (htake space tail hspace ht)

namespace Codec

variable {α : Type}

@[simp]
theorem local_string : Codec.string.Local := fun depth => local_readString depth "a string"

@[simp]
theorem local_integer : Codec.integer.Local := by
  intro depth
  refine (local_readNumber depth "i64").of_read ?_
  intro cs i rest h
  obtain ⟨⟨n, _⟩, hread, h⟩ := bind_eq_ok.mp h
  cases n with
  | integer value =>
    dsimp only at h
    split at h
    · rename_i hfits
      obtain ⟨rfl, rfl⟩ := ok_pair_inj.mp h
      refine ⟨_, hread, ?_⟩
      intro cs rest hread
      simp only [Codec.integer, hread, ok_bind, hfits]
      rfl
    · cases h
  | double value => cases h

@[simp]
theorem local_double : Codec.double.Local := by
  intro depth
  refine (local_readNumber depth "f64").of_read ?_
  intro cs d rest h
  obtain ⟨⟨n, _⟩, hread, h⟩ := bind_eq_ok.mp h
  cases n with
  | integer value =>
    obtain ⟨rfl, rfl⟩ := ok_pair_inj.mp h
    refine ⟨_, hread, ?_⟩
    intro cs rest hread
    simp only [Codec.double, hread, ok_bind]
    rfl
  | double value =>
    obtain ⟨rfl, rfl⟩ := ok_pair_inj.mp h
    refine ⟨_, hread, ?_⟩
    intro cs rest hread
    simp only [Codec.double, hread, ok_bind]
    rfl

@[simp]
theorem local_date : Codec.date.Local := by
  intro depth
  refine (local_readString depth "a formatted date string").of_read ?_
  intro cs d rest h
  obtain ⟨⟨s, _⟩, hread, h⟩ := bind_eq_ok.mp h
  dsimp only at h
  split at h
  · rename_i hdate
    obtain ⟨rfl, rfl⟩ := ok_pair_inj.mp h
    refine ⟨_, hread, ?_⟩
    intro cs rest hread
    simp only [Codec.date, hread, ok_bind, hdate]
    rfl
  · cases h

@[simp]
theorem local_any : Codec.any.Local := by
  intro depth
  refine (local_readValue depth).of_read ?_
  intro cs v rest h
  obtain ⟨⟨w, _⟩, hread, h⟩ := bind_eq_ok.mp h
  obtain ⟨rfl, rfl⟩ := ok_pair_inj.mp h
  refine ⟨_, hread, ?_⟩
  intro cs rest hread
  simp only [Codec.any, hread, ok_bind]
  rfl

@[simp]
theorem local_named {values : List α} {name : α → String} : (named values name).Local :=
  fun _ => local_readNamed

variable {codec : Codec α}

theorem Local.optional (hlocal : codec.Local) (hskips : codec.Skips) : codec.optional.Local :=
  fun depth => local_readOptional (hlocal depth) (hskips depth)

@[simp]
theorem Local.list (hlocal : codec.Local) (hskips : codec.Skips) : codec.list.Local :=
  local_readList hlocal hskips

theorem Local.listOrNull (hlocal : codec.Local) (hskips : codec.Skips) :
    codec.listOrNull.Local := by
  intro depth
  refine ((hlocal.list hskips).optional hskips.list depth).of_read ?_
  intro cs as rest h
  obtain ⟨⟨o, _⟩, hread, h⟩ := bind_eq_ok.mp h
  obtain ⟨rfl, rfl⟩ := ok_pair_inj.mp h
  refine ⟨o, hread, ?_⟩
  intro cs rest hread
  replace hread : readOptional (readList codec.read) depth cs = .ok (o, rest) := hread
  simp only [Codec.listOrNull, hread, ok_bind]
  rfl

end Codec

end RecipeClient.Json
