import RecipeClient.Proofs.FilterReading

/-!
# What stands outside the literals of a filter

Read with the double quote as the delimiter of string literals, the text of a filter is divided
into literals and what stands outside of them. The strings of a filter are written between quotes
as they are. So they stay inside their literals as long as they hold no quote themselves, and a
string that does hold one is always seen in the number of literals.

- `literals`, `outside`: a text divided at its quotes
- `length_literals_text_iff`: a filter has one literal for each string unless a string holds a quote
- `same_structure`: filters that differ only in their strings have texts of the same structure, as
  long as no string holds a quote
-/

namespace RecipeClient

/-! ## Dividing a text at its quotes -/

namespace FilterReader

open Text (split split_append_cons)

/-- Every other item of a list, from the first one on. -/
def everyOther {α : Type} : List α → List α
  | [] => []
  | [a] => [a]
  | a :: _ :: rest => a :: everyOther rest

/-- The pieces of a text between its quotes. -/
def pieces (cs : List Char) : List (List Char) := split (· == '"') cs

/-- What stands outside the literals of a text, piece by piece. -/
def outside (cs : List Char) : List (List Char) := everyOther (pieces cs)

/-- The literals of a text; one that is not closed lasts to the end. -/
def literals (cs : List Char) : List (List Char) := everyOther (pieces cs).tail

theorem everyOther_modifyHead {α : Type} (f : α → α) (as : List α) :
    everyOther (as.modifyHead f) = (everyOther as).modifyHead f := by
  match as with
  | [] => rfl
  | [a] => rfl
  | a :: b :: rest => simp [everyOther]

theorem length_everyOther {α : Type} (as : List α) :
    (everyOther as).length = (as.length + 1) / 2 := by
  induction as using everyOther.induct with
  | case1 => simp [everyOther]
  | case2 a => simp [everyOther]
  | case3 a b rest ih =>
    simp only [everyOther, List.length_cons, ih]
    omega

/-- There is one piece more than there are quotes. -/
theorem length_pieces (cs : List Char) : (pieces cs).length = cs.count '"' + 1 := by
  unfold pieces
  induction cs with
  | nil => simp [split]
  | cons c cs ih =>
    rw [split, List.count_cons]
    split
    · simp [ih]
    · -- the character is put in front of the first piece
      have hne := Text.split_ne_nil (· == '"') cs
      cases hpieces : split (· == '"') cs with
      | nil => exact absurd hpieces hne
      | cons first rest =>
        rw [hpieces] at ih
        simpa [Text.consFirst] using ih

theorem length_literals (cs : List Char) : (literals cs).length = (cs.count '"' + 1) / 2 := by
  rw [literals, length_everyOther, List.length_tail, length_pieces, Nat.add_sub_cancel]

/-- A text without quotes is put in front of the first piece. -/
theorem pieces_append {front : List Char} (h : '"' ∉ front) (cs : List Char) :
    pieces (front ++ cs) = (pieces cs).modifyHead (front ++ ·) := by
  unfold pieces
  induction front with
  | nil => cases hpieces : split (· == '"') cs <;> simp [hpieces]
  | cons c front ih =>
    have hc : (c == '"') = false := by
      simp only [List.mem_cons, not_or] at h
      simpa using Ne.symm h.1
    have htail := ih fun hmem => h (List.mem_cons_of_mem _ hmem)
    have hne := Text.split_ne_nil (· == '"') cs
    rw [List.cons_append, split, if_neg (by simp [hc]), htail]
    cases hpieces : split (· == '"') cs with
    | nil => exact absurd hpieces hne
    | cons first rest => simp [Text.consFirst]

theorem outside_append {front : List Char} (h : '"' ∉ front) (cs : List Char) :
    outside (front ++ cs) = (outside cs).modifyHead (front ++ ·) := by
  rw [outside, pieces_append h, everyOther_modifyHead, outside]

private theorem separates_eq_false {cs : List Char} (h : '"' ∉ cs) :
    ∀ c ∈ cs, (c == '"') = false := by
  intro c hc
  have hne : c ≠ '"' := fun heq => h (heq ▸ hc)
  simp [hne]

/-- A quoted string without quotes of its own is one literal, and leaves no trace outside. -/
theorem outside_quotedChars_append {s : String} (h : '"' ∉ s.toList) (cs : List Char) :
    outside (quotedChars s ++ cs) = [] :: outside cs := by
  have hopen : pieces (quotedChars s ++ cs) = [] :: pieces (s.toList ++ '"' :: cs) := by
    simp [pieces, quotedChars, split]
  have hclose : pieces (s.toList ++ '"' :: cs) = s.toList :: pieces cs :=
    split_append_cons (separates_eq_false h) rfl cs
  rw [outside, hopen, hclose]
  simp [everyOther, outside]

end FilterReader

/-! ## Filters without their strings -/

/-- A value with empty strings in place of its own. -/
def FilterValue.blanked : FilterValue → FilterValue
  | .single _ => .single ""
  | .list values => .list (values.map fun _ => "")

/-- A condition with empty strings in its value. -/
def Condition.blanked (c : Condition) : Condition := { c with value := c.value.map (·.blanked) }

/-- The strings that are written for a condition. -/
def Condition.strings (c : Condition) : List String := c.value.elim [] (·.strings)

namespace QueryFilterJSONPart

/-- A part with empty strings in its value. -/
def blanked (part : QueryFilterJSONPart) : QueryFilterJSONPart :=
  { part with value := part.value.map (·.blanked) }

/-- No quote stands in the attribute of a part or in its parentheses. -/
structure Unquoted (part : QueryFilterJSONPart) : Prop where
  attr : ∀ attr ∈ part.attributeName, '"' ∉ attr.toList
  left : ∀ left ∈ part.leftParenthesis, '"' ∉ left.toList
  right : ∀ right ∈ part.rightParenthesis, '"' ∉ right.toList

theorem condition?_blanked (part : QueryFilterJSONPart) :
    part.blanked.condition? = part.condition?.map (·.blanked) := by
  unfold condition? blanked
  cases part.attributeName with
  | none => simp
  | some attr =>
    cases part.relationalOperator with
    | none => simp
    | some relation => cases hnull : relation.comparesWithNull <;> simp [Condition.blanked, hnull]

end QueryFilterJSONPart

namespace QueryFilterJSON

/-- A filter with empty strings in its values. -/
def blanked (filter : QueryFilterJSON) : QueryFilterJSON := ⟨filter.parts.map (·.blanked)⟩

/-- The strings that are written for a filter, in order. -/
def strings (filter : QueryFilterJSON) : List String := filter.normal.flatMap (·.strings)

theorem unjoined_map_blanked (conditions : List Condition) :
    unjoined (conditions.map (·.blanked)) = (unjoined conditions).map (·.blanked) := by
  cases conditions with
  | nil => simp [unjoined]
  | cons first rest => simp [unjoined, Condition.blanked]

theorem normal_blanked (filter : QueryFilterJSON) :
    filter.blanked.normal = filter.normal.map (·.blanked) := by
  have hconditions : filter.blanked.parts.filterMap (·.condition?) =
      (filter.parts.filterMap (·.condition?)).map (·.blanked) := by
    rw [blanked, List.filterMap_map, List.map_filterMap]
    exact congrArg (List.filterMap · _) (funext QueryFilterJSONPart.condition?_blanked)
  rw [normal, normal, hconditions, unjoined_map_blanked]

end QueryFilterJSON

/-! ## The structure of a condition -/

/-- No quote stands in the attribute of a condition or in its parentheses. -/
structure Condition.Unquoted (c : Condition) : Prop where
  attr : '"' ∉ c.attr.toList
  left : '"' ∉ c.left.toList
  right : '"' ∉ c.right.toList

namespace FilterReader

theorem quote_not_mem_name (relation : Relationship) : '"' ∉ relation.name.toList := by
  cases relation with
  | keyword k => cases k <;> simp [Relationship.name, RelationalKeyword.name]
  | operator o => cases o <;> simp [Relationship.name, RelationalOperator.name]

/-- What stands before the value of a condition. -/
def frontChars (c : Condition) : List Char :=
  (match c.operator with
    | some operator => operator.name.toList ++ [' ']
    | none => []) ++
  c.left.toList ++ c.attr.toList ++ ' ' :: (c.relation.name.toList ++ [' '])

theorem conditionChars_eq (c : Condition) :
    conditionChars c = frontChars c ++ (valueChars c.value ++ c.right.toList) := by
  cases hoperator : c.operator <;> simp [conditionChars, frontChars, unjoinedChars, hoperator]

theorem quote_not_mem_frontChars {c : Condition} (h : c.Unquoted) : '"' ∉ frontChars c := by
  have hname := quote_not_mem_name c.relation
  cases hoperator : c.operator with
  | none => simp [frontChars, hoperator, h.left, h.attr, hname]
  | some operator =>
    cases operator <;>
      simp [frontChars, hoperator, h.left, h.attr, hname, LogicalOperator.name]

/-! ### How many literals there are -/

/-- The quotes of strings: two around each, and those that they hold. -/
def quotesOf : List String → Nat
  | [] => 0
  | s :: strings => 2 + s.toList.count '"' + quotesOf strings

theorem count_quotedChars (s : String) : (quotedChars s).count '"' = 2 + s.toList.count '"' := by
  simp only [quotedChars, List.count_cons_self, List.count_append, List.count_nil]
  omega

theorem count_itemChars (items : List String) : (itemChars items).count '"' = quotesOf items := by
  induction items with
  | nil => simp [itemChars, quotesOf]
  | cons s items ih =>
    cases items with
    | nil => simp [itemChars, quotesOf, count_quotedChars]
    | cons t items =>
      have hcons : itemChars (s :: t :: items) =
          quotedChars s ++ ',' :: ' ' :: itemChars (t :: items) := by
        simp [itemChars]
      rw [hcons, List.count_append, count_quotedChars]
      simpa [quotesOf] using ih

theorem count_valueChars (value : Option FilterValue) :
    (valueChars value).count '"' = quotesOf (value.elim [] (·.strings)) := by
  match value with
  | none => simp [valueChars, quotesOf]
  | some (.single s) => simp [valueChars, quotesOf, FilterValue.strings, count_quotedChars]
  | some (.list values) => simp [valueChars, FilterValue.strings, count_itemChars]

theorem count_conditionChars {c : Condition} (h : c.Unquoted) :
    (conditionChars c).count '"' = quotesOf c.strings := by
  have hfront := List.count_eq_zero.mpr (quote_not_mem_frontChars h)
  have hright := List.count_eq_zero.mpr h.right
  rw [conditionChars_eq, List.count_append, List.count_append, hfront, hright, count_valueChars,
    Condition.strings]
  simp

theorem quotesOf_append (strings more : List String) :
    quotesOf (strings ++ more) = quotesOf strings + quotesOf more := by
  induction strings with
  | nil => simp [quotesOf]
  | cons s strings ih =>
    rw [List.cons_append, quotesOf, quotesOf, ih]
    omega

theorem count_filterChars {conditions : List Condition} (h : ∀ c ∈ conditions, c.Unquoted) :
    (filterChars conditions).count '"' = quotesOf (conditions.flatMap (·.strings)) := by
  induction conditions with
  | nil => simp [filterChars, quotesOf]
  | cons c rest ih =>
    have hc := count_conditionChars (h c (List.mem_cons_self ..))
    have hrest := ih fun d hd => h d (List.mem_cons_of_mem _ hd)
    rw [List.flatMap_cons, quotesOf_append, ← hc, ← hrest]
    cases rest with
    | nil => simp [filterChars]
    | cons d rest => simp [filterChars_cons_cons, List.count_append]

/-- The quotes that strings hold add up to nothing only if no string holds one. -/
theorem quotesOf_eq_iff (strings : List String) :
    (quotesOf strings + 1) / 2 = strings.length ↔ ∀ s ∈ strings, '"' ∉ s.toList := by
  have hle : ∀ strings : List String, 2 * strings.length ≤ quotesOf strings := by
    intro strings
    induction strings with
    | nil => simp
    | cons s strings ih =>
      rw [quotesOf, List.length_cons]
      omega
  induction strings with
  | nil => simp [quotesOf]
  | cons s strings ih =>
    -- each string brings two quotes at least, so none of them can make up for another
    have hs := hle strings
    rw [List.forall_mem_cons, ← List.count_eq_zero]
    refine Iff.trans ?_ (and_congr Iff.rfl ih)
    rw [quotesOf, List.length_cons]
    omega

/-! ### What stands outside -/

variable {cs ds : List Char}

theorem outside_itemChars_append {items others : List String}
    (hlength : items.length = others.length) (hitems : ∀ s ∈ items, '"' ∉ s.toList)
    (hothers : ∀ s ∈ others, '"' ∉ s.toList) (h : outside cs = outside ds) :
    outside (itemChars items ++ cs) = outside (itemChars others ++ ds) := by
  induction items generalizing others with
  | nil =>
    obtain rfl := List.length_eq_zero_iff.mp hlength.symm
    have hclose : '"' ∉ [']'] := by simp
    simp only [itemChars, List.map_nil, List.intercalate_nil, List.nil_append]
    rw [outside_append hclose, outside_append hclose, h]
  | cons s items ih =>
    obtain ⟨t, others, rfl⟩ := List.exists_cons_of_length_eq_add_one hlength.symm
    have hs := hitems s (List.mem_cons_self ..)
    have ht := hothers t (List.mem_cons_self ..)
    have hrest := ih (Nat.succ.inj hlength) (fun u hu => hitems u (List.mem_cons_of_mem _ hu))
      fun u hu => hothers u (List.mem_cons_of_mem _ hu)
    -- a comma follows exactly where the other list has one more string too
    cases items with
    | nil =>
      obtain rfl := List.length_eq_zero_iff.mp (Nat.succ.inj hlength).symm
      have hone : ∀ (u : String) (tail : List Char),
          itemChars [u] ++ tail = quotedChars u ++ ([']'] ++ tail) := by
        simp [itemChars]
      have hclose : '"' ∉ [']'] := by simp
      rw [hone, hone, outside_quotedChars_append hs, outside_quotedChars_append ht,
        outside_append hclose, outside_append hclose, h]
    | cons s' items =>
      obtain ⟨t', others, rfl⟩ := List.exists_cons_of_length_eq_add_one (Nat.succ.inj hlength).symm
      have hmore : ∀ (u v : String) (more : List String) (tail : List Char),
          itemChars (u :: v :: more) ++ tail =
            quotedChars u ++ ([',', ' '] ++ (itemChars (v :: more) ++ tail)) := by
        simp [itemChars]
      have hcomma : '"' ∉ [',', ' '] := by simp
      rw [hmore, hmore, outside_quotedChars_append hs, outside_quotedChars_append ht,
        outside_append hcomma, outside_append hcomma, hrest]

theorem outside_valueChars_append {value other : Option FilterValue}
    (hsame : value.map (·.blanked) = other.map (·.blanked))
    (hvalue : ∀ s ∈ value.elim [] (·.strings), '"' ∉ s.toList)
    (hother : ∀ s ∈ other.elim [] (·.strings), '"' ∉ s.toList) (h : outside cs = outside ds) :
    outside (valueChars value ++ cs) = outside (valueChars other ++ ds) := by
  match value, other with
  | none, none =>
    have hnull : '"' ∉ "NULL".toList := by simp
    rw [valueChars, outside_append hnull, outside_append hnull, h]
  | some (.single s), some (.single t) =>
    rw [valueChars, valueChars, outside_quotedChars_append (hvalue s (by simp [FilterValue.strings])),
      outside_quotedChars_append (hother t (by simp [FilterValue.strings])), h]
  | some (.list items), some (.list others) =>
    have hlength : items.length = others.length := by
      simpa [FilterValue.blanked, List.map_const'] using hsame
    have hopen : '"' ∉ ['['] := by simp
    have hlist : ∀ (values : List String) (tail : List Char),
        valueChars (some (.list values)) ++ tail = ['['] ++ (itemChars values ++ tail) := by
      simp [valueChars]
    rw [hlist, hlist, outside_append hopen, outside_append hopen,
      outside_itemChars_append hlength hvalue hother h]
  | none, some _ => simp at hsame
  | some _, none => simp at hsame
  | some (.single _), some (.list _) => simp [FilterValue.blanked] at hsame
  | some (.list _), some (.single _) => simp [FilterValue.blanked] at hsame

theorem outside_conditionChars_append {c d : Condition} (hsame : c.blanked = d.blanked)
    (hplain : c.Unquoted) (hc : ∀ s ∈ c.strings, '"' ∉ s.toList)
    (hd : ∀ s ∈ d.strings, '"' ∉ s.toList) (h : outside cs = outside ds) :
    outside (conditionChars c ++ cs) = outside (conditionChars d ++ ds) := by
  obtain ⟨operator, left, attr, relation, value, right⟩ := c
  obtain ⟨operator', left', attr', relation', value', right'⟩ := d
  simp only [Condition.blanked, Condition.mk.injEq] at hsame
  obtain ⟨rfl, rfl, rfl, rfl, hvalue, rfl⟩ := hsame
  have hfront := quote_not_mem_frontChars hplain
  have hbehind : outside (right.toList ++ cs) = outside (right.toList ++ ds) := by
    rw [outside_append hplain.right, outside_append hplain.right, h]
  rw [conditionChars_eq, conditionChars_eq, List.append_assoc, List.append_assoc, List.append_assoc,
    List.append_assoc, outside_append hfront]
  -- only the values differ, so what stands before them is the same
  show _ = outside (frontChars ⟨operator, left, attr, relation, value, right⟩ ++ _)
  rw [outside_append hfront, outside_valueChars_append hvalue hc hd hbehind]

theorem outside_filterChars {conditions others : List Condition}
    (hsame : conditions.map (·.blanked) = others.map (·.blanked))
    (hplain : ∀ c ∈ conditions, c.Unquoted)
    (hconditions : ∀ s ∈ conditions.flatMap (·.strings), '"' ∉ s.toList)
    (hothers : ∀ s ∈ others.flatMap (·.strings), '"' ∉ s.toList) :
    outside (filterChars conditions) = outside (filterChars others) := by
  induction conditions generalizing others with
  | nil =>
    obtain rfl := List.map_eq_nil_iff.mp hsame.symm
    rfl
  | cons c rest ih =>
    obtain ⟨d, others, rfl, hd, hrest⟩ := List.map_eq_cons_iff.mp hsame.symm
    rw [List.flatMap_cons, List.forall_mem_append] at hconditions hothers
    have hbehind := ih hrest.symm (fun e he => hplain e (List.mem_cons_of_mem _ he))
      hconditions.2 hothers.2
    have hc := hplain c (List.mem_cons_self ..)
    cases rest with
    | nil =>
      obtain rfl := List.map_eq_nil_iff.mp hrest
      have hend : outside [] = outside [] := rfl
      simpa [filterChars] using
        outside_conditionChars_append hd.symm hc hconditions.1 hothers.1 hend
    | cons c' rest =>
      obtain ⟨d', others, rfl, -, -⟩ := List.map_eq_cons_iff.mp hrest
      have hspace : '"' ∉ [' '] := by simp
      have hgap : outside ([' '] ++ filterChars (c' :: rest)) =
          outside ([' '] ++ filterChars (d' :: others)) := by
        rw [outside_append hspace, outside_append hspace, hbehind]
      rw [filterChars_cons_cons, filterChars_cons_cons]
      exact outside_conditionChars_append hd.symm hc hconditions.1 hothers.1 hgap

end FilterReader

/-! ## Filters that differ in their strings -/

namespace QueryFilterJSON

open FilterReader

private theorem unquoted_of_condition? {part : QueryFilterJSONPart} (h : part.Unquoted)
    {c : Condition} (hc : part.condition? = some c) : c.Unquoted := by
  unfold QueryFilterJSONPart.condition? at hc
  split at hc
  · rename_i attr relation hattr _
    obtain rfl := Option.some.inj hc
    refine ⟨h.attr attr hattr, ?_, ?_⟩
    · cases hleft : part.leftParenthesis with
      | none => simp
      | some left => simpa using h.left left hleft
    · cases hright : part.rightParenthesis with
      | none => simp
      | some right => simpa using h.right right hright
  · exact absurd hc (by simp)

theorem unquoted_of_mem_normal {filter : QueryFilterJSON} (h : ∀ part ∈ filter.parts, part.Unquoted) :
    ∀ c ∈ filter.normal, c.Unquoted := by
  have hparts : ∀ c ∈ filter.parts.filterMap (·.condition?), c.Unquoted := by
    intro c hc
    obtain ⟨part, hpart, hcondition⟩ := List.mem_filterMap.mp hc
    exact unquoted_of_condition? (h part hpart) hcondition
  unfold normal
  cases hconditions : filter.parts.filterMap (·.condition?) with
  | nil => simp [unjoined]
  | cons first rest =>
    rw [hconditions] at hparts
    intro c hc
    rcases List.mem_cons.mp hc with rfl | hc
    · -- the first condition only loses its operator
      obtain ⟨hattr, hleft, hright⟩ := hparts first (List.mem_cons_self ..)
      exact ⟨hattr, hleft, hright⟩
    · exact hparts c (List.mem_cons_of_mem _ hc)

theorem unquoted_of_blanked_eq {filter other : QueryFilterJSON}
    (hsame : filter.blanked = other.blanked) (h : ∀ part ∈ filter.parts, part.Unquoted) :
    ∀ part ∈ other.parts, part.Unquoted := by
  intro part hpart
  have hmem : part.blanked ∈ filter.blanked.parts := by
    rw [hsame]
    exact List.mem_map_of_mem hpart
  obtain ⟨twin, htwin, heq⟩ := List.mem_map.mp hmem
  simp only [QueryFilterJSONPart.blanked, QueryFilterJSONPart.mk.injEq] at heq
  obtain ⟨hleft, hright, -, hattr, -⟩ := heq
  obtain ⟨hattr', hleft', hright'⟩ := h twin htwin
  rw [hattr] at hattr'
  rw [hleft] at hleft'
  rw [hright] at hright'
  exact ⟨hattr', hleft', hright'⟩

/-- No string that is written for the filter holds a quote. -/
def QuoteFree (filter : QueryFilterJSON) : Prop := ∀ s ∈ filter.strings, '"' ∉ s.toList

theorem length_strings_blanked (filter : QueryFilterJSON) :
    filter.blanked.strings.length = filter.strings.length := by
  have hcondition : ∀ c : Condition, c.blanked.strings.length = c.strings.length := by
    intro c
    match hvalue : c.value with
    | none => simp [Condition.blanked, Condition.strings, hvalue]
    | some (.single s) =>
      simp [Condition.blanked, Condition.strings, hvalue, FilterValue.blanked, FilterValue.strings]
    | some (.list values) =>
      simp [Condition.blanked, Condition.strings, hvalue, FilterValue.blanked, FilterValue.strings]
  rw [strings, normal_blanked, strings]
  simp [List.length_flatMap, Function.comp_def, hcondition]

theorem quoteFree_blanked (filter : QueryFilterJSON) : filter.blanked.QuoteFree := by
  intro s hs
  rw [strings, normal_blanked] at hs
  obtain ⟨c, hc, hs⟩ := List.mem_flatMap.mp hs
  obtain ⟨d, -, rfl⟩ := List.mem_map.mp hc
  match hvalue : d.value with
  | none => simp [Condition.blanked, Condition.strings, hvalue] at hs
  | some (.single t) =>
    simp_all [Condition.blanked, Condition.strings, FilterValue.blanked, FilterValue.strings]
  | some (.list values) =>
    simp_all [Condition.blanked, Condition.strings, FilterValue.blanked, FilterValue.strings]

/-- A filter has as many literals as strings exactly if no string holds a quote. -/
theorem length_literals_text_iff {filter : QueryFilterJSON}
    (h : ∀ part ∈ filter.parts, part.Unquoted) :
    (literals filter.text.toList).length = filter.strings.length ↔ filter.QuoteFree := by
  rw [length_literals, toList_text, count_filterChars (unquoted_of_mem_normal h)]
  exact quotesOf_eq_iff filter.strings

/-- Filters that differ in nothing but their strings have texts with equally many literals and with
the same text outside of them, as long as no string holds a quote. A quote in a string always
changes how many literals there are. -/
theorem same_structure {filter other : QueryFilterJSON} (hsame : filter.blanked = other.blanked)
    (h : ∀ part ∈ filter.parts, part.Unquoted) :
    (filter.QuoteFree → other.QuoteFree →
      (literals filter.text.toList).length = (literals other.text.toList).length ∧
        outside filter.text.toList = outside other.text.toList) ∧
    (¬ filter.QuoteFree →
      (literals filter.text.toList).length ≠ (literals filter.blanked.text.toList).length) := by
  have hlength : filter.strings.length = other.strings.length := by
    rw [← length_strings_blanked filter, hsame, length_strings_blanked]
  have hother := unquoted_of_blanked_eq hsame h
  constructor
  · intro hfilter hfree
    have hcount := (length_literals_text_iff h).mpr hfilter
    have hcount' := (length_literals_text_iff hother).mpr hfree
    refine ⟨by rw [hcount, hcount', hlength], ?_⟩
    rw [toList_text, toList_text]
    apply outside_filterChars
    · rw [← normal_blanked, ← normal_blanked, hsame]
    · exact unquoted_of_mem_normal h
    · exact hfilter
    · exact hfree
  · intro hquote hcount
    have hblanked : ∀ part ∈ filter.blanked.parts, part.Unquoted := by
      intro part hpart
      obtain ⟨twin, htwin, rfl⟩ := List.mem_map.mp hpart
      obtain ⟨hattr, hleft, hright⟩ := h twin htwin
      exact ⟨hattr, hleft, hright⟩
    -- the emptied filter has one literal for each string, so the filter itself would as well
    rw [(length_literals_text_iff hblanked).mpr (quoteFree_blanked filter),
      length_strings_blanked] at hcount
    exact hquote ((length_literals_text_iff h).mp hcount)

/-- Brackets, commas and operators in strings leave the structure of a filter alone. -/
theorem same_structure_reserved :
    let tags (first second : String) : QueryFilterJSONPart := {
      leftParenthesis := some "(", rightParenthesis := some ")", attributeName := some "tags.name"
      relationalOperator := some (.keyword .notIn), value := some (.list [first, second]) }
    let filter : QueryFilterJSON := ⟨[tags "], (" "AND"]⟩
    let other : QueryFilterJSON := ⟨[tags "" "soup"]⟩
    filter.blanked = other.blanked ∧ (∀ part ∈ filter.parts, part.Unquoted) ∧
      filter.QuoteFree ∧ other.QuoteFree ∧
      (literals filter.text.toList).length = (literals other.text.toList).length ∧
      outside filter.text.toList = outside other.text.toList := by
  intro tags filter other
  have hplain : ∀ part ∈ filter.parts, part.Unquoted := by
    intro part hpart
    obtain rfl := List.mem_singleton.mp hpart
    constructor <;> simp [tags]
  have hstrings : filter.strings = ["], (", "AND"] ∧ other.strings = ["", "soup"] := ⟨rfl, rfl⟩
  have hfilter : filter.QuoteFree := by simp [QuoteFree, hstrings.1]
  have hother : other.QuoteFree := by simp [QuoteFree, hstrings.2]
  have hsame : filter.blanked = other.blanked := rfl
  exact ⟨hsame, hplain, hfilter, hother, (same_structure hsame hplain).1 hfilter hother⟩

/-- A string that closes its own literal adds a condition to the filter. -/
theorem structure_changed_by_quote :
    let named (name : String) : QueryFilterJSONPart := {
      attributeName := some "name", relationalOperator := some (.operator .equal)
      value := some (.single name) }
    let filter : QueryFilterJSON := ⟨[named "soup\" OR name <> \"soup"]⟩
    let other : QueryFilterJSON := ⟨[named "soup"]⟩
    filter.blanked = other.blanked ∧ (∀ part ∈ filter.parts, part.Unquoted) ∧
      (literals filter.text.toList).length = 2 ∧ (literals other.text.toList).length = 1 ∧
      outside filter.text.toList = ["name = ".toList, " OR name <> ".toList, []] ∧
      outside other.text.toList = ["name = ".toList, []] := by
  intro named filter other
  have hplain : ∀ part ∈ filter.parts, part.Unquoted := by
    intro part hpart
    obtain rfl := List.mem_singleton.mp hpart
    constructor <;> simp [named]
  exact ⟨rfl, hplain, by decide +kernel, by decide +kernel, by decide +kernel, by decide +kernel⟩

end QueryFilterJSON

end RecipeClient
