import RecipeClient.Exchange.Query
import RecipeClient.Proofs.PercentDecoding
import RecipeClient.Text.Split

/-!
# Queries can be read back

What `Query.append` writes behind a path is taken apart again by splitting at `&`, then at the
first `=`, and undoing the percent-encoding. No key or value can end its own pair, since encoded
texts hold neither separator, so the pairs come back in order, whatever text they hold.

- `append_decodes`: the shape of an extended path, and what its query decodes to
-/

namespace RecipeClient.Query

open Json (Value)
open Text.Percent (isEncodedChar isEncodedChar_of_mem_encode not_mem_encode)

/-! ## Reading a query -/

/-- The pair that a part of a query stands for: it is divided at the first `=`. -/
def pairOf? (part : List Char) : Option (String × String) :=
  match part.dropWhile (· != '=') with
  | [] => none
  | _ :: value => do
    let key ← Text.Percent.decode? (part.takeWhile (· != '='))
    let value ← Text.Percent.decode? value
    return (key, value)

/-- The pairs that the text of a query stands for; the empty text stands for no pairs. -/
def decode? (cs : List Char) : Option Query :=
  if cs.isEmpty then some [] else (Text.split (· == '&') cs).mapM pairOf?

/-- The part of an address after its first question mark. -/
def behindMark (cs : List Char) : List Char := (cs.dropWhile (· != '?')).drop 1

/-- The part of an address before its first question mark. -/
def beforeMark (cs : List Char) : List Char := cs.takeWhile (· != '?')

/-- Whether a character occurs in the text of a query: an ASCII letter or digit, or one of
`-_.~%=&`. -/
def isQueryChar (c : Char) : Bool := isEncodedChar c || c == '=' || c == '&'

/-! ## One pair -/

theorem pairOf?_pairText (pair : String × String) : pairOf? (pairText pair) = some pair := by
  have hkey : '=' ∉ Text.Percent.encode pair.1.toList := not_mem_encode (by decide)
  -- the key holds no `=`, so the first one stands between key and value
  obtain ⟨htake, hdrop⟩ := Text.span_append_cons (Text.bne_of_not_mem hkey) (c := '=') (by decide)
    (Text.Percent.encode pair.2.toList)
  simp only [pairOf?, pairText, htake, hdrop, Text.Percent.decode?_encode]
  rfl

theorem separates_pairText (pair : String × String) :
    ∀ c ∈ pairText pair, (c == '&') = false := by
  intro c hc
  have hne : c ≠ '&' := by
    rintro rfl
    -- the only separator that a pair holds is its own `=`
    rcases List.mem_append.mp hc with h | h
    · exact not_mem_encode (by decide) h
    · rcases List.mem_cons.mp h with h | h
      · exact absurd h (by decide)
      · exact not_mem_encode (by decide) h
  simp [hne]

private theorem isQueryChar_of_mem_pairText {pair : String × String} {c : Char}
    (h : c ∈ pairText pair) : isQueryChar c = true := by
  unfold isQueryChar
  rcases List.mem_append.mp h with h | h
  · simp [isEncodedChar_of_mem_encode h]
  · rcases List.mem_cons.mp h with rfl | h
    · rfl
    · simp [isEncodedChar_of_mem_encode h]

/-! ## All pairs -/

theorem text_cons_cons (first second : String × String) (query : Query) :
    text (first :: second :: query) = pairText first ++ '&' :: text (second :: query) := rfl

theorem text_cons_ne_nil (pair : String × String) (query : Query) : text (pair :: query) ≠ [] := by
  cases query <;> simp [text, pairText]

theorem split_text (pair : String × String) (query : Query) :
    Text.split (· == '&') (text (pair :: query)) = (pair :: query).map pairText := by
  induction query generalizing pair with
  | nil => exact Text.split_of_separates_eq_false (separates_pairText pair)
  | cons second query ih =>
    rw [text_cons_cons, Text.split_append_cons (separates_pairText pair) rfl, ih]
    rfl

private theorem mapM_pairOf? (query : Query) :
    (query.map pairText).mapM pairOf? = some query := by
  induction query with
  | nil => rfl
  | cons pair query ih => simp [pairOf?_pairText, ih]

/-- The text of a query decodes to its pairs, in order. -/
theorem decode?_text (query : Query) : decode? (text query) = some query := by
  cases query with
  | nil => rfl
  | cons pair query =>
    have hne := text_cons_ne_nil pair query
    rw [decode?, if_neg (by simpa using hne), split_text, mapM_pairOf?]

theorem isQueryChar_of_mem_text {query : Query} {c : Char} (h : c ∈ text query) :
    isQueryChar c = true := by
  match query with
  | [] => exact absurd h (by simp [text])
  | [pair] => exact isQueryChar_of_mem_pairText h
  | first :: second :: rest =>
    rw [text_cons_cons] at h
    rcases List.mem_append.mp h with h | h
    · exact isQueryChar_of_mem_pairText h
    · rcases List.mem_cons.mp h with rfl | h
      · rfl
      · exact isQueryChar_of_mem_text h

/-! ## Behind a path -/

theorem append_nil (path : String) : append path [] = path := rfl

theorem append_cons (path : String) (pair : String × String) (query : Query) :
    append path (pair :: query) =
      path ++ String.ofList (separator path :: text (pair :: query)) := rfl

private theorem text_append_cons (first : String × String) (query : Query)
    (second : String × String) (more : Query) :
    text (first :: query ++ second :: more) =
      text (first :: query) ++ '&' :: text (second :: more) := by
  induction query generalizing first with
  | nil => rfl
  | cons pair query ih =>
    -- the query ends in the same pair, so it is joined in the same place
    have h := ih pair
    simp only [List.cons_append] at h ⊢
    rw [text_cons_cons, h, text_cons_cons, List.append_assoc, List.cons_append]

/-- A path with a query has its mark, so more pairs are joined with `&`. -/
private theorem separator_append_cons (path : String) (pair : String × String) (query : Query) :
    separator (append path (pair :: query)) = '&' := by
  have hmark : '?' ∈ (append path (pair :: query)).toList := by
    rw [append_cons, String.toList_append, String.toList_ofList, List.mem_append]
    -- the mark is in the path already, or it is the separator that was written
    by_cases h : '?' ∈ path.toList
    · exact Or.inl h
    · right
      simp [separator, h]
  simp [separator, hmark]

/-- Pairs may be written behind a path in several steps. -/
theorem append_append (path : String) (query more : Query) :
    append (append path query) more = append path (query ++ more) := by
  match query, more with
  | [], more => rfl
  | query, [] => rw [List.append_nil, append_nil]
  | first :: query, second :: more =>
    -- the second step finds a mark, so it joins its pairs with `&`
    rw [append_cons (append path _), separator_append_cons, append_cons, List.cons_append,
      append_cons, ← List.cons_append, text_append_cons]
    simp only [← List.cons_append, String.ofList_append, String.append_assoc]

/-- Behind the mark of an extended path stand the pairs. -/
theorem behindMark_append {path : String} (h : '?' ∉ path.toList) (query : Query) :
    behindMark (append path query).toList = text query := by
  have hpath : ∀ c ∈ path.toList, (c != '?') = true := Text.bne_of_not_mem h
  cases query with
  | nil =>
    have hdrop : (path.toList ++ []).dropWhile (· != '?') = [] :=
      List.dropWhile_append_of_pos hpath
    rw [List.append_nil] at hdrop
    rw [append_nil, behindMark, hdrop]
    rfl
  | cons pair query =>
    have hseparator : separator path = '?' := by simp [separator, h]
    rw [append_cons, String.toList_append, String.toList_ofList, hseparator, behindMark,
      List.dropWhile_append_of_pos hpath]
    rfl

theorem beforeMark_append_cons (cs rest : List Char) :
    beforeMark (cs ++ '?' :: rest) = beforeMark cs := by
  induction cs with
  | nil => rfl
  | cons c cs ih => simp only [beforeMark, List.cons_append, List.takeWhile_cons] at ih ⊢; rw [ih]

theorem beforeMark_append_of_mem {cs : List Char} (h : '?' ∈ cs) (rest : List Char) :
    beforeMark (cs ++ rest) = beforeMark cs := by
  obtain ⟨front, behind, rfl⟩ := List.append_of_mem h
  rw [List.append_assoc, List.cons_append, beforeMark_append_cons, beforeMark_append_cons]

theorem beforeMark_of_not_mem {cs : List Char} (h : '?' ∉ cs) : beforeMark cs = cs := by
  have htake : (cs ++ []).takeWhile (· != '?') = cs ++ [] :=
    List.takeWhile_append_of_pos (Text.bne_of_not_mem h)
  rwa [List.append_nil] at htake

/-- Pairs behind a path do not change what stands before the first question mark. -/
theorem beforeMark_append (path : String) (query : Query) :
    beforeMark (append path query).toList = beforeMark path.toList := by
  cases query with
  | nil => rfl
  | cons pair query =>
    rw [append_cons, String.toList_append, String.toList_ofList]
    by_cases h : '?' ∈ path.toList
    · exact beforeMark_append_of_mem h _
    · have hseparator : separator path = '?' := by simp [separator, h]
      rw [hseparator, beforeMark_append_cons]

/-- Pairs are written behind a path after one separator, in an alphabet that no text leaves, and
decode to themselves; writing them in two steps is writing them at once. Where the path has no
query of its own, decoding what follows the first question mark therefore gives exactly the pairs
of the parameters. -/
theorem append_decodes (path : String) (query more : Query) (parameters : Value) :
    append path [] = path ∧
    (query ≠ [] → ∃ written : List Char,
      append path query =
        path ++ String.ofList ((if '?' ∈ path.toList then '&' else '?') :: written) ∧
      decode? written = some query ∧
      ∀ c ∈ written, isQueryChar c = true) ∧
    append (append path query) more = append path (query ++ more) ∧
    ∀ address, '?' ∉ path.toList → withParameters path parameters = .ok address →
      ∃ pairs, ofParameters parameters = .ok pairs ∧
        decode? (behindMark address.toList) = some pairs := by
  refine ⟨append_nil path, ?_, append_append path query more, ?_⟩
  · intro hne
    obtain ⟨pair, rest, rfl⟩ := List.exists_cons_of_ne_nil hne
    refine ⟨text (pair :: rest), ?_, decode?_text _, fun c hc => isQueryChar_of_mem_text hc⟩
    rw [append_cons]
    simp [separator]
  · intro address hmark haddress
    -- the address is the path with the pairs of the parameters behind it
    rw [withParameters] at haddress
    cases hpairs : ofParameters parameters with
    | error bad => rw [hpairs] at haddress; exact nomatch haddress
    | ok pairs =>
      rw [hpairs] at haddress
      obtain rfl : append path pairs = address := Except.ok.inj haddress
      exact ⟨pairs, rfl, by rw [behindMark_append hmark, decode?_text]⟩

/-- A key and a value that are made of separators come back as they are. -/
theorem append_decodes_reserved :
    [("a&b=", "é?%+ ")] ≠ ([] : Query) ∧ '?' ∉ "/api/recipes".toList ∧
      (∃ written, append "/api/recipes" [("a&b=", "é?%+ ")] =
        "/api/recipes" ++ String.ofList ('?' :: written) ∧
        decode? written = some [("a&b=", "é?%+ ")]) ∧
      ∃ address,
        withParameters "/api/recipes" (.object [("a&b=", .string "é?%+ ")]) = .ok address ∧
        decode? (behindMark address.toList) = some [("a&b=", "é?%+ ")] := by
  have hmark : '?' ∉ "/api/recipes".toList := by simp
  have hne : [("a&b=", "é?%+ ")] ≠ ([] : Query) := by simp
  obtain ⟨-, happend, -, hparameters⟩ := append_decodes "/api/recipes" [("a&b=", "é?%+ ")] []
    (.object [("a&b=", .string "é?%+ ")])
  obtain ⟨written, hwritten, hdecoded, -⟩ := happend hne
  rw [if_neg hmark] at hwritten
  obtain ⟨pairs, hpairs, hread⟩ := hparameters _ hmark rfl
  obtain rfl : [("a&b=", "é?%+ ")] = pairs := Except.ok.inj hpairs
  exact ⟨hne, hmark, ⟨written, hwritten, hdecoded⟩, _, rfl, hread⟩

end RecipeClient.Query
