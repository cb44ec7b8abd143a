import RecipeClient.Data.Filter
import RecipeClient.Text.Split

/-!
# The text of a filter says which filter it is

The text of a filter is read back by a reader that is not told where one condition ends and the
next begins. Words end at a space, quoted strings at their second quote, and the relation is the
one whose name stands right before a value. What the reader finds is the normal form of the
filter: its conditions, without what the text leaves out.

- `text_eq_iff`: two filters have the same text exactly when they have the same normal form, and
  the normal form is read off the text
-/

namespace RecipeClient

/-! ## Normal forms -/

namespace FilterValue

/-- The texts that a value holds. -/
def strings : FilterValue → List String
  | .single s => [s]
  | .list values => values

end FilterValue

/-- A condition of a filter, with all that its text depends on. -/
structure Condition where
  /-- How it is joined to the condition before it. -/
  operator : Option LogicalOperator
  /-- The parentheses before it. -/
  left : String
  attr : String
  relation : Relationship
  /-- What the attribute is compared with; nothing stands for `NULL`. -/
  value : Option FilterValue
  /-- The parentheses after it. -/
  right : String
deriving DecidableEq

namespace QueryFilterJSONPart

/-- The condition that a part states, if it has an attribute and a relation. A relation with
`NULL` has no value of its own. -/
def condition? (part : QueryFilterJSONPart) : Option Condition :=
  match part.attributeName, part.relationalOperator with
  | some attr, some relation =>
    some {
      operator := part.logicalOperator
      left := part.leftParenthesis.getD ""
      attr, relation
      value := if relation.comparesWithNull then none else part.value
      right := part.rightParenthesis.getD "" }
  | _, _ => none

/-- What the server's syntax asks of the texts of a part: an attribute is one word without
parentheses, which is no operator; parentheses are parentheses; values hold no quotes. -/
structure Plain (part : QueryFilterJSONPart) : Prop where
  attr_ne : ∀ attr ∈ part.attributeName, attr ≠ "" ∧ attr ≠ "AND" ∧ attr ≠ "OR"
  attr_chars : ∀ attr ∈ part.attributeName, ∀ c ∈ attr.toList, c ≠ ' ' ∧ c ≠ '(' ∧ c ≠ ')'
  left_chars : ∀ left ∈ part.leftParenthesis, ∀ c ∈ left.toList, c = '('
  right_chars : ∀ right ∈ part.rightParenthesis, ∀ c ∈ right.toList, c = ')'
  value_chars : ∀ value ∈ part.value, ∀ s ∈ value.strings, '"' ∉ s.toList

end QueryFilterJSONPart

namespace QueryFilterJSON

/-- Conditions of which the first is joined to nothing. -/
def unjoined : List Condition → List Condition
  | [] => []
  | first :: rest => { first with operator := none } :: rest

/-- The conditions that a filter states. -/
def normal (filter : QueryFilterJSON) : List Condition :=
  unjoined (filter.parts.filterMap (·.condition?))

/-- Every part is in the server's syntax. -/
def Plain (filter : QueryFilterJSON) : Prop := ∀ part ∈ filter.parts, part.Plain

end QueryFilterJSON

/-! ## Reading -/

namespace FilterReader

/-- What is left of a text after a prefix. -/
def after? : (start : List Char) → List Char → Option (List Char)
  | [], cs => some cs
  | _ :: _, [] => none
  | s :: start, c :: cs => if s = c then after? start cs else none

/-- The word at the front of a text, and what follows the space behind it. -/
def word (cs : List Char) : List Char × List Char :=
  (cs.takeWhile (· != ' '), (cs.dropWhile (· != ' ')).drop 1)

/-- Reads a string between quotes. -/
def quoted? : List Char → Option (String × List Char)
  | '"' :: cs =>
    match cs.dropWhile (· != '"') with
    | _ :: rest => some (String.ofList (cs.takeWhile (· != '"')), rest)
    | [] => none
  | _ => none

/-- Reads the strings of a list up to its closing bracket, at most `fuel` of them. -/
def quotedItems? : (fuel : Nat) → List Char → Option (List String × List Char)
  | 0, _ => none
  | fuel + 1, cs => do
    let (s, rest) ← quoted? cs
    match rest with
    | ']' :: rest => return ([s], rest)
    | ',' :: ' ' :: rest =>
      let (items, rest) ← quotedItems? fuel rest
      return (s :: items, rest)
    | _ => none

/-- Reads what an attribute is compared with. -/
def value? : List Char → Option (Option FilterValue × List Char)
  | 'N' :: 'U' :: 'L' :: 'L' :: rest => some (none, rest)
  | '"' :: cs => (quoted? ('"' :: cs)).map fun read => (some (.single read.1), read.2)
  | '[' :: ']' :: rest => some (some (.list []), rest)
  | '[' :: cs => (quotedItems? cs.length cs).map fun read => (some (.list read.1), read.2)
  | _ => none

/-- Reads a relation and the value behind it. -/
def comparison? (cs : List Char) : Option (Relationship × Option FilterValue × List Char) :=
  Relationship.all.findSome? fun relation => do
    let rest ← after? (relation.name.toList ++ [' ']) cs
    let (value, rest) ← value? rest
    return (relation, value, rest)

/-- Reads a condition, from the parentheses before it to those after it. -/
def unjoinedCondition? (operator : Option LogicalOperator) (cs : List Char) :
    Option (Condition × List Char) := do
  let (start, rest) := word cs
  let (relation, value, rest) ← comparison? rest
  let condition : Condition := {
    operator, relation, value
    left := String.ofList (start.takeWhile (· == '('))
    attr := String.ofList (start.dropWhile (· == '('))
    right := String.ofList (rest.takeWhile (· == ')')) }
  return (condition, rest.dropWhile (· == ')'))

/-- Reads a condition with the operator before it, if there is one. -/
def condition? (cs : List Char) : Option (Condition × List Char) :=
  match LogicalOperator.all.find? (·.name.toList == (word cs).1) with
  | some operator => unjoinedCondition? (some operator) (word cs).2
  | none => unjoinedCondition? none cs

/-- Reads conditions with spaces between them, at most `fuel` of them. -/
def conditions? : (fuel : Nat) → List Char → Option (List Condition)
  | 0, _ => none
  | fuel + 1, cs => do
    let (condition, rest) ← condition? cs
    match rest with
    | [] => return [condition]
    | ' ' :: rest => return condition :: (← conditions? fuel rest)
    | _ => none

/-- The conditions that a text states. -/
def filter? (cs : List Char) : Option (List Condition) :=
  if cs.isEmpty then some [] else conditions? cs.length cs

end FilterReader

/-! ## Writing -/

namespace FilterReader

/-- A quoted string. -/
def quotedChars (s : String) : List Char := '"' :: (s.toList ++ ['"'])

/-- The strings of a list, with its closing bracket. -/
def itemChars (items : List String) : List Char :=
  [',', ' '].intercalate (items.map quotedChars) ++ [']']

/-- A written value. -/
def valueChars : Option FilterValue → List Char
  | none => "NULL".toList
  | some (.single s) => quotedChars s
  | some (.list values) => '[' :: itemChars values

/-- A written condition without its operator. -/
def unjoinedChars (c : Condition) : List Char :=
  c.left.toList ++ c.attr.toList ++ ' ' ::
    (c.relation.name.toList ++ ' ' :: (valueChars c.value ++ c.right.toList))

/-- A written condition. -/
def conditionChars (c : Condition) : List Char :=
  match c.operator with
  | some operator => operator.name.toList ++ ' ' :: unjoinedChars c
  | none => unjoinedChars c

/-- Written conditions, with spaces between them. -/
def filterChars (conditions : List Condition) : List Char :=
  [' '].intercalate (conditions.map conditionChars)

end FilterReader

namespace QueryFilterJSON

open FilterReader

theorem toList_quote (s : String) : (quote s).toList = quotedChars s := by
  simp [quote, quotedChars]

theorem toList_valueText (value : Option FilterValue) :
    (valueText value).toList = valueChars value := by
  match value with
  | none => rfl
  | some (.single s) => exact toList_quote s
  | some (.list values) =>
    simp [valueText, valueChars, itemChars, String.toList_intercalate, Function.comp_def,
      toList_quote]

/-- The text of a part is its condition as it is written, first or joined to others. -/
theorem map_toList_partText? (first : Bool) (part : QueryFilterJSONPart) :
    (partText? first part).map String.toList =
      part.condition?.map fun c =>
        conditionChars (if first then { c with operator := none } else c) := by
  unfold partText? QueryFilterJSONPart.condition?
  cases part.attributeName with
  | none => rfl
  | some attr =>
    cases part.relationalOperator with
    | none => rfl
    | some relation =>
      cases hnull : relation.comparesWithNull <;> cases first <;>
        cases part.logicalOperator <;>
        simp [conditionText, conditionChars, unjoinedChars, hnull, toList_valueText, valueChars]

theorem map_toList_partTexts_false (parts : List QueryFilterJSONPart) :
    (partTexts false parts).map String.toList =
      (parts.filterMap (·.condition?)).map conditionChars := by
  induction parts with
  | nil => rfl
  | cons part parts ih =>
    have hpart := map_toList_partText? false part
    cases htext : partText? false part with
    | none =>
      rw [htext] at hpart
      have hnone : part.condition? = none := Option.map_eq_none_iff.mp hpart.symm
      simp [partTexts, htext, hnone, ih]
    | some text =>
      rw [htext] at hpart
      obtain ⟨c, hc, hchars⟩ := Option.map_eq_some_iff.mp hpart.symm
      simp only [Bool.false_eq_true, if_false] at hchars
      simp [partTexts, htext, hc, hchars, ih]

theorem map_toList_partTexts_true (parts : List QueryFilterJSONPart) :
    (partTexts true parts).map String.toList =
      (unjoined (parts.filterMap (·.condition?))).map conditionChars := by
  induction parts with
  | nil => rfl
  | cons part parts ih =>
    have hpart := map_toList_partText? true part
    cases htext : partText? true part with
    | none =>
      rw [htext] at hpart
      have hnone : part.condition? = none := Option.map_eq_none_iff.mp hpart.symm
      simp [partTexts, htext, hnone, ih]
    | some text =>
      -- from here on a condition is written already, so operators are kept
      rw [htext] at hpart
      obtain ⟨c, hc, hchars⟩ := Option.map_eq_some_iff.mp hpart.symm
      simp only [if_true] at hchars
      simp [partTexts, htext, hc, unjoined, hchars, map_toList_partTexts_false]

/-- The text of a filter depends on its normal form only. -/
theorem toList_text (filter : QueryFilterJSON) :
    filter.text.toList = filterChars filter.normal := by
  rw [text, String.toList_intercalate, map_toList_partTexts_true]
  rfl

end QueryFilterJSON

/-! ## Reading what is written -/

namespace Condition

/-- The syntax of a single condition. -/
structure Plain (c : Condition) : Prop where
  attr_ne : c.attr ≠ "" ∧ c.attr ≠ "AND" ∧ c.attr ≠ "OR"
  attr_chars : ∀ d ∈ c.attr.toList, d ≠ ' ' ∧ d ≠ '(' ∧ d ≠ ')'
  left_chars : ∀ d ∈ c.left.toList, d = '('
  right_chars : ∀ d ∈ c.right.toList, d = ')'
  value_chars : ∀ value ∈ c.value, ∀ s ∈ value.strings, '"' ∉ s.toList

end Condition

namespace FilterReader

open Text (bne_of_not_mem span_append_cons)

/-! ### Words and prefixes -/

theorem word_append_cons {cs : List Char} (h : ' ' ∉ cs) (rest : List Char) :
    word (cs ++ ' ' :: rest) = (cs, rest) := by
  obtain ⟨htake, hdrop⟩ := span_append_cons (bne_of_not_mem h) (c := ' ') (by decide) rest
  rw [word, htake, hdrop]
  rfl

theorem after?_append (start rest : List Char) : after? start (start ++ rest) = some rest := by
  induction start with
  | nil => cases rest <;> rfl
  | cons c start ih => simp [after?, ih]

theorem append_of_after? {start cs rest : List Char} (h : after? start cs = some rest) :
    start ++ rest = cs := by
  fun_induction after? start cs with
  | case1 cs => exact (Option.some.inj h).symm
  | case2 => exact absurd h nofun
  | case3 start c cs ih => exact congrArg (c :: ·) (ih h)
  | case4 => exact absurd h nofun

/-! ### Values -/

theorem quoted?_append {s : String} (h : '"' ∉ s.toList) (rest : List Char) :
    quoted? (quotedChars s ++ rest) = some (s, rest) := by
  obtain ⟨htake, hdrop⟩ := span_append_cons (bne_of_not_mem h) (c := '"') (by decide) rest
  simp [quoted?, quotedChars, htake, hdrop]

theorem quotedItems?_append {first : String} {more : List String} {fuel : Nat}
    (h : ∀ s ∈ first :: more, '"' ∉ s.toList) (hfuel : more.length < fuel) (rest : List Char) :
    quotedItems? fuel (itemChars (first :: more) ++ rest) = some (first :: more, rest) := by
  induction more generalizing first fuel with
  | nil =>
    obtain ⟨fuel, rfl⟩ := Nat.exists_eq_succ_of_ne_zero (Nat.ne_of_gt hfuel)
    have hread := quoted?_append (h first (by simp)) (']' :: rest)
    simp [quotedItems?, itemChars, hread]
  | cons second more ih =>
    obtain ⟨fuel, rfl⟩ := Nat.exists_eq_succ_of_ne_zero (Nat.ne_of_gt (Nat.zero_lt_of_lt hfuel))
    have hread := quoted?_append (h first (by simp))
      (',' :: ' ' :: (itemChars (second :: more) ++ rest))
    have hmore := ih (fun s hs => h s (List.mem_cons_of_mem _ hs)) (Nat.lt_of_succ_lt_succ hfuel)
    simp only [itemChars, List.map_cons, List.intercalate_cons_cons, List.append_assoc,
      List.cons_append, List.nil_append] at hread hmore ⊢
    simp [quotedItems?, hread, hmore]

/-- A list has no more strings than characters. -/
theorem length_lt_length_itemChars (first : String) (more : List String) :
    more.length < (itemChars (first :: more)).length := by
  induction more generalizing first with
  | nil => simp [itemChars]
  | cons second more ih =>
    have h := ih second
    simp only [itemChars, List.map_cons, List.intercalate_cons_cons, List.length_append,
      List.length_cons] at h ⊢
    omega

private theorem exists_itemChars_eq_cons (first : String) (more : List String) :
    ∃ tail, itemChars (first :: more) = '"' :: tail := by
  cases more <;> simp [itemChars, quotedChars]

theorem value?_append {value : Option FilterValue}
    (h : ∀ v ∈ value, ∀ s ∈ v.strings, '"' ∉ s.toList) (rest : List Char) :
    value? (valueChars value ++ rest) = some (value, rest) := by
  match value with
  | none => rfl
  | some (.single s) =>
    have hread := quoted?_append (h _ rfl s (by simp [FilterValue.strings])) rest
    rw [quotedChars, List.cons_append] at hread
    rw [valueChars, quotedChars, List.cons_append, value?, hread]
    rfl
  | some (.list []) => rfl
  | some (.list (first :: more)) =>
    have hlength := length_lt_length_itemChars first more
    have hread := quotedItems?_append (h _ rfl)
      (Nat.lt_of_lt_of_le hlength (Nat.le_add_right _ rest.length)) rest
    rw [← List.length_append] at hread
    -- the list starts with a quote, so it is not the empty one
    obtain ⟨tail, htail⟩ := exists_itemChars_eq_cons first more
    rw [htail, List.cons_append] at hread
    rw [valueChars, htail, List.cons_append, List.cons_append, value?, hread]
    · rfl
    · simp

/-! ### Relations -/

theorem mem_all (relation : Relationship) : relation ∈ Relationship.all := by
  cases relation with
  | keyword k => cases k <;> decide
  | operator o => cases o <;> decide

/-- What is left of `IS NOT` after `IS` starts like `NULL`, but no value starts with it. -/
theorem after?_not {cs : List Char} (h : value? cs ≠ none) : after? "NOT ".toList cs = none := by
  cases hafter : after? "NOT ".toList cs with
  | none => rfl
  | some rest =>
    have hcs : cs = 'N' :: 'O' :: 'T' :: ' ' :: rest := (append_of_after? hafter).symm
    rw [hcs] at h
    exact absurd rfl h

/-- In front of a value no name of a relation is read but the one that is written. -/
theorem after?_of_ne {relation other : Relationship} (h : other ≠ relation) {cs : List Char}
    (hcs : value? cs ≠ none) :
    (after? (other.name.toList ++ [' ']) (relation.name.toList ++ ' ' :: cs)).bind value? = none := by
  cases relation with
  | keyword k =>
    cases other with
    | keyword l =>
      cases k <;> cases l <;>
        first
        | rfl
        | exact absurd rfl h
        | exact congrArg (Option.bind · value?) (after?_not hcs)
    | operator l => cases k <;> cases l <;> rfl
  | operator o =>
    cases other with
    | keyword l => cases o <;> cases l <;> rfl
    | operator l => cases o <;> cases l <;> first | rfl | exact absurd rfl h

theorem findSome?_of_only {α β : Type} {f : α → Option β} {as : List α} {a : α} {b : β}
    (hmem : a ∈ as) (hself : f a = some b) (hother : ∀ other, other ≠ a → f other = none) :
    as.findSome? f = some b := by
  induction as with
  | nil => exact absurd hmem List.not_mem_nil
  | cons first as ih =>
    rw [List.findSome?_cons]
    by_cases hfirst : first = a
    · rw [hfirst, hself]
    · rw [hother first hfirst]
      exact ih ((List.mem_cons.mp hmem).resolve_left (Ne.symm hfirst))

/-- Of the names that a text starts with, only one stands before a value. -/
theorem comparison?_append (relation : Relationship) {value : Option FilterValue}
    (h : ∀ v ∈ value, ∀ s ∈ v.strings, '"' ∉ s.toList) (rest : List Char) :
    comparison? (relation.name.toList ++ ' ' :: (valueChars value ++ rest)) =
      some (relation, value, rest) := by
  have hread := value?_append h rest
  have hafter := after?_append (relation.name.toList ++ [' ']) (valueChars value ++ rest)
  rw [List.append_assoc, List.singleton_append] at hafter
  -- of all relations only the written one is read, so their order does not matter
  refine findSome?_of_only (mem_all relation) ?_ fun other hother => ?_
  · simp only [hafter, hread, Option.bind_eq_bind, Option.bind_some, Option.pure_def]
  · have hnone := after?_of_ne hother (hread ▸ Option.some_ne_none _)
    simp only [Option.bind_eq_bind, ← Option.bind_assoc, hnone, Option.bind_none]

/-! ### Conditions -/

/-- The word before a condition's relation: its parentheses and its attribute. -/
private theorem not_mem_start {c : Condition} (h : c.Plain) :
    ' ' ∉ c.left.toList ++ c.attr.toList := by
  intro hmem
  rcases List.mem_append.mp hmem with hleft | hattr
  · exact absurd (h.left_chars _ hleft) (by decide)
  · exact (h.attr_chars _ hattr).1 rfl

private theorem span_start {c : Condition} (h : c.Plain) :
    (c.left.toList ++ c.attr.toList).takeWhile (· == '(') = c.left.toList ∧
      (c.left.toList ++ c.attr.toList).dropWhile (· == '(') = c.attr.toList := by
  have hleft : ∀ d ∈ c.left.toList, (d == '(') = true := fun d hd => by
    simp [h.left_chars d hd]
  -- the parentheses end where the attribute starts, which is not empty
  obtain ⟨d, rest, hattr⟩ : ∃ d rest, c.attr.toList = d :: rest := by
    apply List.exists_cons_of_ne_nil
    intro hnil
    exact h.attr_ne.1 (String.toList_eq_nil_iff.mp hnil)
  have hd : (d == '(') = false := by
    have := (h.attr_chars d (by simp [hattr])).2.1
    simp [this]
  rw [hattr]
  exact span_append_cons hleft hd rest

/-- What may follow a condition: the end, or the space before the next one. -/
def Follows (rest : List Char) : Prop := rest = [] ∨ ∃ next, rest = ' ' :: next

private theorem span_right {c : Condition} (h : c.Plain) {rest : List Char}
    (hrest : Follows rest) :
    (c.right.toList ++ rest).takeWhile (· == ')') = c.right.toList ∧
      (c.right.toList ++ rest).dropWhile (· == ')') = rest := by
  have hright : ∀ d ∈ c.right.toList, (d == ')') = true := fun d hd => by
    simp [h.right_chars d hd]
  rcases hrest with rfl | ⟨next, rfl⟩
  · rw [List.takeWhile_append_of_pos hright, List.dropWhile_append_of_pos hright]
    simp
  · exact span_append_cons hright (by decide) next

theorem unjoinedCondition?_append {c : Condition} (h : c.Plain) {rest : List Char}
    (hrest : Follows rest) (operator : Option LogicalOperator) :
    unjoinedCondition? operator (unjoinedChars c ++ rest) = some ({ c with operator }, rest) := by
  obtain ⟨hleft, hattr⟩ := span_start h
  obtain ⟨hright, hend⟩ := span_right h hrest
  have hword := word_append_cons (not_mem_start h)
    (c.relation.name.toList ++ ' ' :: (valueChars c.value ++ (c.right.toList ++ rest)))
  have hread := comparison?_append c.relation h.value_chars (c.right.toList ++ rest)
  -- the word, the relation and the value are written one behind the other
  have hchars : unjoinedChars c ++ rest = (c.left.toList ++ c.attr.toList) ++ ' ' ::
      (c.relation.name.toList ++ ' ' :: (valueChars c.value ++ (c.right.toList ++ rest))) := by
    simp [unjoinedChars]
  rw [hchars, unjoinedCondition?, hword]
  simp [hread, hleft, hattr, hright, hend]

/-- A condition does not start with a word that is an operator. -/
private theorem find?_operator_start {c : Condition} (h : c.Plain) :
    LogicalOperator.all.find? (·.name.toList == c.left.toList ++ c.attr.toList) = none := by
  -- an operator has no parenthesis, so it could only be the attribute itself
  have hne : ∀ name : String, name ≠ c.attr → (∀ d ∈ name.toList, d ≠ '(') →
      name.toList ≠ c.left.toList ++ c.attr.toList := by
    intro name hname hchars heq
    cases hleft : c.left.toList with
    | nil =>
      rw [hleft, List.nil_append] at heq
      exact hname (String.toList_inj.mp heq)
    | cons d rest =>
      have hd : d = '(' := h.left_chars d (by simp [hleft])
      rw [hleft] at heq
      exact hchars d (by simp [heq]) hd
  have hand := hne "AND" h.attr_ne.2.1.symm (by simp)
  have hor := hne "OR" h.attr_ne.2.2.symm (by simp)
  simp only [LogicalOperator.all, LogicalOperator.name, List.find?_cons, List.find?_nil]
  rw [beq_false_of_ne hand, beq_false_of_ne hor]

theorem condition?_append {c : Condition} (h : c.Plain) {rest : List Char}
    (hrest : Follows rest) : condition? (conditionChars c ++ rest) = some (c, rest) := by
  cases hoperator : c.operator with
  | some operator =>
    have hspace : ' ' ∉ operator.name.toList := by cases operator <;> simp [LogicalOperator.name]
    have hfind : LogicalOperator.all.find? (·.name.toList == operator.name.toList) =
        some operator := by cases operator <;> rfl
    -- the first word is the operator
    have hword := word_append_cons hspace (unjoinedChars c ++ rest)
    rw [conditionChars, hoperator]
    simp only [List.append_assoc, List.cons_append, condition?, hword, hfind]
    rw [unjoinedCondition?_append h hrest, ← hoperator]
  | none =>
    -- the first word is the attribute with its parentheses
    have hword : (word (unjoinedChars c ++ rest)).1 = c.left.toList ++ c.attr.toList := by
      rw [unjoinedChars, List.append_assoc, List.cons_append, word_append_cons (not_mem_start h)]
    rw [conditionChars, hoperator]
    simp only [condition?, hword, find?_operator_start h]
    rw [unjoinedCondition?_append h hrest, ← hoperator]

/-! ### Filters -/

private theorem conditionChars_ne_nil (c : Condition) : conditionChars c ≠ [] := by
  unfold conditionChars unjoinedChars
  split <;> simp

theorem filterChars_cons_cons (c d : Condition) (rest : List Condition) :
    filterChars (c :: d :: rest) = conditionChars c ++ ' ' :: filterChars (d :: rest) := by
  simp [filterChars]

theorem conditions?_filterChars {c : Condition} {more : List Condition} {fuel : Nat}
    (h : ∀ d ∈ c :: more, d.Plain) (hfuel : more.length < fuel) :
    conditions? fuel (filterChars (c :: more)) = some (c :: more) := by
  induction more generalizing c fuel with
  | nil =>
    obtain ⟨fuel, rfl⟩ := Nat.exists_eq_succ_of_ne_zero (Nat.ne_of_gt hfuel)
    have hend : Follows [] := Or.inl rfl
    have hread := condition?_append (h c (by simp)) hend
    rw [List.append_nil] at hread
    simp [filterChars, conditions?, hread]
  | cons d more ih =>
    obtain ⟨fuel, rfl⟩ := Nat.exists_eq_succ_of_ne_zero (Nat.ne_of_gt (Nat.zero_lt_of_lt hfuel))
    -- behind a condition stands the space before the next one
    have hread := condition?_append (h c (by simp)) (Or.inr ⟨filterChars (d :: more), rfl⟩)
    have hmore := ih (fun e he => h e (List.mem_cons_of_mem _ he)) (Nat.lt_of_succ_lt_succ hfuel)
    rw [filterChars_cons_cons]
    simp [conditions?, hread, hmore]

/-- Every condition takes a character at least. -/
private theorem length_lt_length_filterChars (c : Condition) (more : List Condition) :
    more.length < (filterChars (c :: more)).length := by
  induction more generalizing c with
  | nil =>
    have hne := conditionChars_ne_nil c
    simpa [filterChars] using List.length_pos_iff.mpr hne
  | cons d more ih =>
    have h := ih d
    rw [filterChars_cons_cons, List.length_append, List.length_cons, List.length_cons]
    omega

/-- Written conditions are read back. -/
theorem filter?_filterChars {conditions : List Condition} (h : ∀ c ∈ conditions, c.Plain) :
    filter? (filterChars conditions) = some conditions := by
  cases conditions with
  | nil => rfl
  | cons c more =>
    have hlength := length_lt_length_filterChars c more
    have hne : filterChars (c :: more) ≠ [] := List.ne_nil_of_length_pos (Nat.zero_lt_of_lt hlength)
    rw [filter?, if_neg (by simpa using hne), conditions?_filterChars h hlength]

end FilterReader

/-! ## The main statement -/

namespace QueryFilterJSON

private theorem plain_of_condition? {part : QueryFilterJSONPart} (h : part.Plain) {c : Condition}
    (hc : part.condition? = some c) : c.Plain := by
  unfold QueryFilterJSONPart.condition? at hc
  split at hc
  · rename_i attr relation hattr hrelation
    obtain rfl := Option.some.inj hc
    refine ⟨h.attr_ne _ hattr, h.attr_chars _ hattr, ?_, ?_, ?_⟩
    · intro d hd
      cases hleft : part.leftParenthesis with
      | none => rw [hleft] at hd; exact absurd hd (by simp)
      | some left => rw [hleft] at hd; exact h.left_chars left hleft d hd
    · intro d hd
      cases hright : part.rightParenthesis with
      | none => rw [hright] at hd; exact absurd hd (by simp)
      | some right => rw [hright] at hd; exact h.right_chars right hright d hd
    · intro value hvalue
      split at hvalue
      · exact absurd hvalue (by simp)
      · exact h.value_chars value hvalue
  · exact absurd hc (by simp)

theorem plain_of_mem_normal {filter : QueryFilterJSON} (h : filter.Plain) :
    ∀ c ∈ filter.normal, c.Plain := by
  have hparts : ∀ c ∈ filter.parts.filterMap (·.condition?), c.Plain := by
    intro c hc
    obtain ⟨part, hpart, hcondition⟩ := List.mem_filterMap.mp hc
    exact plain_of_condition? (h part hpart) hcondition
  unfold normal
  cases hconditions : filter.parts.filterMap (·.condition?) with
  | nil => simp [unjoined]
  | cons first rest =>
    rw [hconditions] at hparts
    intro c hc
    -- only the operator of the first condition is changed, and the syntax does not ask about it
    rcases List.mem_cons.mp hc with rfl | hc
    · obtain ⟨hne, hchars, hleft, hright, hvalue⟩ := hparts first (List.mem_cons_self ..)
      exact ⟨hne, hchars, hleft, hright, hvalue⟩
    · exact hparts c (List.mem_cons_of_mem _ hc)

theorem filter?_text {filter : QueryFilterJSON} (h : filter.Plain) :
    FilterReader.filter? filter.text.toList = some filter.normal := by
  rw [toList_text, FilterReader.filter?_filterChars (plain_of_mem_normal h)]

/-- Filters in the server's syntax have the same text exactly when they have the same normal form,
and all of the normal form is read off the text. -/
theorem text_eq_iff {filter other : QueryFilterJSON} (h : filter.Plain) (hother : other.Plain) :
    (filter.text = other.text ↔ filter.normal = other.normal) ∧
      FilterReader.filter? filter.text.toList = some filter.normal := by
  refine ⟨⟨?_, ?_⟩, filter?_text h⟩
  · -- equal texts are read as equal normal forms
    intro htext
    have hread := filter?_text h
    rw [htext, filter?_text hother] at hread
    exact (Option.some.inj hread).symm
  · -- the text is made of the normal form
    intro hnormal
    apply String.toList_inj.mp
    rw [toList_text, toList_text, hnormal]

/-- A filter whose first part is left out and whose second one compares with `NULL` has the text of
the one condition that remains, which is read off it. -/
theorem text_eq_iff_leading_operator :
    let written : QueryFilterJSONPart := {
      leftParenthesis := some "(", rightParenthesis := some ")", logicalOperator := some .or
      attributeName := some "lastMade", relationalOperator := some (.keyword .isNot)
      value := some (.list ["a, b", "] AND ("]) }
    let filter : QueryFilterJSON := ⟨[{ attributeName := some "name" }, written]⟩
    let other : QueryFilterJSON := ⟨[{ written with logicalOperator := none, value := none }]⟩
    filter.Plain ∧ other.Plain ∧ filter.text = other.text ∧
      FilterReader.filter? filter.text.toList =
        some [⟨none, "(", "lastMade", .keyword .isNot, none, ")"⟩] := by
  intro written filter other
  have hplain : filter.Plain := by
    intro part hpart
    simp only [filter, written, List.mem_cons, List.not_mem_nil, or_false] at hpart
    rcases hpart with rfl | rfl <;> constructor <;> simp [FilterValue.strings]
  have hother : other.Plain := by
    intro part hpart
    simp only [other, written, List.mem_cons, List.not_mem_nil, or_false] at hpart
    obtain rfl := hpart
    constructor <;> simp
  obtain ⟨htext, hread⟩ := text_eq_iff hplain hother
  exact ⟨hplain, hother, htext.mpr rfl, hread⟩

end QueryFilterJSON

end RecipeClient
