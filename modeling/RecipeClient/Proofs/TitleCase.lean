import Mathlib.Data.List.Forall2
import RecipeClient.Text.UpperCase

/-!
# Words in title case

Title case puts the first character of every word into upper case and leaves the rest as it is, the
spaces between the words included. The upper case of a character may have several characters, but
no space is among them, and the first of them is its own upper case. So the words stay apart, and
title case has nothing left to do when it comes to them again.

- `isUpperRange`: code points that are their own upper case
- `exists_upper_eq`: the first character of an upper case is its own upper case
- `WordsOf`: the words of a text, and `wordsOf_iff`: there is one way to take a text apart
- `titleCase_raises_words`: title case, word by word
-/

namespace RecipeClient.Text

/-! ## Code points that stay as they are -/

/-- From one code point to another, in steps, none has another upper case. Runs that skip every
second letter may lie between the letters of one another. -/
def isUpperRange (first last step : Nat) : Bool :=
  (upperSequences.all fun entry => Nat.blt last entry.1 || Nat.blt entry.1 first) &&
  upperRuns.all fun run =>
    Nat.blt last run.1 || Nat.blt run.2.1 first ||
      ((first.beq last || step.beq 2) && run.2.2.1.beq 2 && ((first + run.1) % 2).beq 1)

theorem upperCodes_of_isUpperRange {first last step code : Nat}
    (h : isUpperRange first last step = true) (hfirst : first ≤ code) (hlast : code ≤ last)
    (hstep : (code - first) % step = 0) : upperCodes code = [code] := by
  unfold isUpperRange at h
  rw [Bool.and_eq_true, List.all_eq_true, List.all_eq_true] at h
  obtain ⟨hsequences, hruns⟩ := h
  have hlookup : upperSequences.lookup code = none := by
    apply List.lookup_eq_none_iff.mpr
    intro entry hentry
    have haside := hsequences entry hentry
    simp only [Bool.or_eq_true, Nat.blt_eq] at haside
    have hne : code ≠ entry.1 := by omega
    simpa using hne
  have hfind : upperRuns.find? (inRun code) = none := by
    apply List.find?_eq_none.mpr
    intro run hrun hin
    have haside := hruns run hrun
    simp only [Bool.or_eq_true, Bool.and_eq_true, Nat.blt_eq, Nat.beq_eq] at haside
    simp only [inRun, Bool.and_eq_true, decide_eq_true_eq, beq_iff_eq] at hin
    obtain ⟨⟨hlow, hhigh⟩, hmod⟩ := hin
    -- the code point is outside of the run, or it is one of those that the run skips
    rcases haside with (hbelow | habove) | ⟨⟨heven, htwo⟩, hodd⟩
    · omega
    · omega
    · rw [htwo] at hmod
      rcases heven with rfl | rfl <;> omega
  rw [upperCodes, hlookup, hfind]

/-! ## The tables -/

/-- Whether a code point stands for a character other than the space. -/
def isVisibleCode (code : Nat) : Bool := decide code.isValidChar && code != 0x20

/-- What upper-casing ends with: a character that is its own upper case, and at most two characters
behind it, none of them a space. -/
structure Settled (codes : List Nat) : Prop where
  head : ∃ first rest, codes = first :: rest ∧ rest.length ≤ 2 ∧ upperCodes first = [first]
  visible : ∀ code ∈ codes, isVisibleCode code = true

theorem settled_of_mem_upperSequences {entry : Nat × List Nat} (h : entry ∈ upperSequences) :
    Settled entry.2 := by
  have hall : (upperSequences.all fun entry =>
      entry.2.length ≤ 3 && entry.2.all isVisibleCode &&
        entry.2.head?.any fun first => isUpperRange first first 1) = true := by decide +kernel
  have hentry := List.all_eq_true.mp hall entry h
  simp only [Bool.and_eq_true, decide_eq_true_eq, Option.any_eq_true] at hentry
  obtain ⟨⟨hshort, hvisible⟩, first, hfirst, hrange⟩ := hentry
  obtain ⟨rest, hcodes⟩ := List.head?_eq_some_iff.mp hfirst
  refine ⟨⟨first, rest, hcodes, ?_, ?_⟩, List.all_eq_true.mp hvisible⟩
  · rw [hcodes, List.length_cons] at hshort
    omega
  · exact upperCodes_of_isUpperRange hrange (Nat.le_refl first) (Nat.le_refl first)
      (by rw [Nat.sub_self, Nat.zero_mod])

/-- The upper case of a letter in a run. -/
def upperIn (run : Nat × Nat × Nat × Int) (code : Nat) : Nat := ((code : Int) + run.2.2.2).toNat

/-- The upper cases of a run lie between those of its first and its last letter, in the steps of the
run. -/
theorem upperIn_between {run : Nat × Nat × Nat × Int} {code : Nat} (hin : inRun code run = true)
    (hfirst : 0 < upperIn run run.1) :
    upperIn run run.1 ≤ upperIn run code ∧ upperIn run code ≤ upperIn run run.2.1 ∧
      (upperIn run code - upperIn run run.1) % run.2.2.1 = 0 := by
  simp only [inRun, Bool.and_eq_true, decide_eq_true_eq, beq_iff_eq] at hin
  obtain ⟨⟨hlow, hhigh⟩, hstep⟩ := hin
  unfold upperIn at *
  -- all letters of a run are moved by the same distance, and the first is not moved below zero
  have hdistance : ((code : Int) + run.2.2.2).toNat - ((run.1 : Int) + run.2.2.2).toNat =
      code - run.1 := by omega
  refine ⟨by omega, by omega, ?_⟩
  rw [hdistance, hstep]

/-- Whether all code points from one to another stand for characters other than the space. -/
def isVisibleRange (first last : Nat) : Bool :=
  Nat.blt 0x20 first && (Nat.blt last 0xD800 || (Nat.blt 0xDFFF first && Nat.blt last 0x110000))

theorem isVisibleCode_of_isVisibleRange {first last code : Nat}
    (h : isVisibleRange first last = true) (hfirst : first ≤ code) (hlast : code ≤ last) :
    isVisibleCode code = true := by
  simp only [isVisibleRange, Bool.and_eq_true, Bool.or_eq_true, Nat.blt_eq] at h
  simp only [isVisibleCode, Nat.isValidChar, Bool.and_eq_true, decide_eq_true_eq, bne_iff_ne]
  omega

theorem settled_of_mem_upperRuns {run : Nat × Nat × Nat × Int} {code : Nat} (h : run ∈ upperRuns)
    (hin : inRun code run = true) : Settled [upperIn run code] := by
  have hall : (upperRuns.all fun run =>
      Nat.blt 0 (upperIn run run.1) && isVisibleRange (upperIn run run.1) (upperIn run run.2.1) &&
        isUpperRange (upperIn run run.1) (upperIn run run.2.1) run.2.2.1) = true := by
    decide +kernel
  have hrun := List.all_eq_true.mp hall run h
  simp only [Bool.and_eq_true, Nat.blt_eq] at hrun
  obtain ⟨⟨hpositive, hvisible⟩, hrange⟩ := hrun
  obtain ⟨hfirst, hlast, hstep⟩ := upperIn_between hin hpositive
  refine ⟨⟨upperIn run code, [], rfl, Nat.zero_le 2, ?_⟩, ?_⟩
  · exact upperCodes_of_isUpperRange hrange hfirst hlast hstep
  · intro other hother
    obtain rfl := List.mem_singleton.mp hother
    exact isVisibleCode_of_isVisibleRange hvisible hfirst hlast

/-- A code point that is not its own upper case has one that is settled. -/
theorem upperCodes_cases (code : Nat) : upperCodes code = [code] ∨ Settled (upperCodes code) := by
  cases hlookup : upperSequences.lookup code with
  | some codes =>
    right
    obtain ⟨before, behind, hentries, -⟩ := List.lookup_eq_some_iff.mp hlookup
    have hmem : (code, codes) ∈ upperSequences := by simp [hentries]
    have hcodes : upperCodes code = codes := by rw [upperCodes, hlookup]
    exact hcodes ▸ settled_of_mem_upperSequences hmem
  | none =>
    cases hfind : upperRuns.find? (inRun code) with
    | some run =>
      right
      have hcodes : upperCodes code = [upperIn run code] := by
        rw [upperCodes, hlookup, hfind]
        rfl
      rw [hcodes]
      exact settled_of_mem_upperRuns (List.mem_of_find?_eq_some hfind) (List.find?_some hfind)
    | none =>
      left
      rw [upperCodes, hlookup, hfind]

/-! ## Characters -/

theorem toNat_ofNat_of_visible {code : Nat} (h : isVisibleCode code = true) :
    (Char.ofNat code).toNat = code := by
  simp only [isVisibleCode, Bool.and_eq_true, decide_eq_true_eq] at h
  rw [Char.ofNat, dif_pos h.1]
  rfl

theorem ofNat_ne_space_of_visible {code : Nat} (h : isVisibleCode code = true) :
    Char.ofNat code ≠ ' ' := by
  intro hspace
  have hcode : code = 0x20 := by
    rw [← toNat_ofNat_of_visible h, hspace]
    rfl
  simp [isVisibleCode, hcode] at h

/-- The upper case of a character has one to three characters, and the first of them is its own
upper case. -/
theorem exists_upper_eq (c : Char) :
    ∃ first rest, upper c = first :: rest ∧ rest.length ≤ 2 ∧ upper first = [first] := by
  unfold upper
  rcases upperCodes_cases c.toNat with hself | ⟨⟨first, rest, hcodes, hshort, hfirst⟩, hvisible⟩
  · refine ⟨c, [], ?_, Nat.zero_le 2, ?_⟩ <;> simp [hself]
  · have htoNat := toNat_ofNat_of_visible (hvisible first (by simp [hcodes]))
    refine ⟨Char.ofNat first, rest.map Char.ofNat, by simp [hcodes], by simpa using hshort, ?_⟩
    rw [htoNat, hfirst, List.map_singleton]

theorem space_not_mem_upper {c : Char} (h : c ≠ ' ') : ' ' ∉ upper c := by
  unfold upper
  rcases upperCodes_cases c.toNat with hself | ⟨-, hvisible⟩
  · simpa [hself] using h.symm
  · intro hmem
    obtain ⟨code, hcode, hspace⟩ := List.mem_map.mp hmem
    exact ofNat_ne_space_of_visible (hvisible code hcode) hspace

/-! ## Words -/

/-- A word before and after title case: the upper case of its first character stands in the place of
that character. -/
inductive Raised : List Char → List Char → Prop where
  | empty : Raised [] []
  | word (c : Char) (rest : List Char) (any : 1 ≤ (upper c).length)
      (few : (upper c).length ≤ 3) : Raised (c :: rest) (upper c ++ rest)

theorem raised_capitalize (word : List Char) : Raised word (capitalize word) := by
  cases word with
  | nil => exact .empty
  | cons c rest =>
    obtain ⟨first, behind, hupper, hshort, -⟩ := exists_upper_eq c
    have hlength : (upper c).length = behind.length + 1 := by rw [hupper, List.length_cons]
    apply Raised.word
    · omega
    · omega

theorem capitalize_capitalize (word : List Char) :
    capitalize (capitalize word) = capitalize word := by
  cases word with
  | nil => rfl
  | cons c rest =>
    obtain ⟨first, behind, hupper, -, hfirst⟩ := exists_upper_eq c
    show capitalize (upper c ++ rest) = upper c ++ rest
    rw [hupper, List.cons_append, capitalize, hfirst]
    rfl

theorem space_not_mem_capitalize {word : List Char} (h : ' ' ∉ word) : ' ' ∉ capitalize word := by
  cases word with
  | nil => exact h
  | cons c rest =>
    rw [List.mem_cons, not_or] at h
    rw [capitalize, List.mem_append, not_or]
    exact ⟨space_not_mem_upper (Ne.symm h.1), h.2⟩

/-! ## Texts -/

/-- The words of a text, empty ones included: single spaces between them make up the text, and there
is no space in any of them. -/
structure WordsOf (cs : List Char) (words : List (List Char)) : Prop where
  joined : [' '].intercalate words = cs
  nonempty : words ≠ []
  spaceless : ∀ word ∈ words, ' ' ∉ word

theorem split_eq_splitOn (c : Char) (cs : List Char) : split (· == c) cs = cs.splitOn c := by
  induction cs with
  | nil => rfl
  | cons d ds ih =>
    rw [split, List.splitOn_cons_eq_if_modifyHead, ih]
    -- the first part is there, so a character can be put in front of it
    obtain ⟨part, parts, hparts⟩ := List.exists_cons_of_ne_nil (List.splitOn_ne_nil c ds)
    rw [hparts]
    rfl

/-- There is one way to take a text apart into words. -/
theorem wordsOf_iff {cs : List Char} {words : List (List Char)} :
    WordsOf cs words ↔ words = split (· == ' ') cs := by
  rw [split_eq_splitOn]
  constructor
  · rintro ⟨rfl, hnonempty, hspaceless⟩
    exact (List.splitOn_intercalate ' ' hspaceless hnonempty).symm
  · rintro rfl
    refine ⟨List.intercalate_splitOn ' ', List.splitOn_ne_nil ' ' cs, ?_⟩
    intro word hword hspace
    rw [← split_eq_splitOn] at hword
    exact absurd (separates_eq_false_of_mem_split hword ' ' hspace) (by decide)

/-- There is one part more than there are separators. -/
theorem length_split (c : Char) (cs : List Char) :
    (split (· == c) cs).length = cs.count c + 1 := by
  induction cs with
  | nil => rfl
  | cons d ds ih =>
    rw [split, List.count_cons]
    split
    · rw [List.length_cons, ih]
    · obtain ⟨part, parts, hparts⟩ := List.exists_cons_of_ne_nil (split_ne_nil (· == c) ds)
      rw [← ih, hparts]
      rfl

theorem WordsOf.length {cs : List Char} {words : List (List Char)} (h : WordsOf cs words) :
    words.length = cs.count ' ' + 1 := by
  rw [wordsOf_iff.mp h, length_split]

/-- The words of a text in title case are the words of the text, each in title case. -/
theorem wordsOf_titleCase {s : String} {words : List (List Char)} (h : WordsOf s.toList words) :
    WordsOf (titleCase s).toList (words.map capitalize) := by
  have htext : (titleCase s).toList = [' '].intercalate (words.map capitalize) := by
    rw [titleCase, String.toList_ofList, ← wordsOf_iff.mp h]
    rfl
  refine ⟨htext.symm, by simpa using h.nonempty, ?_⟩
  intro other hother
  obtain ⟨word, hword, rfl⟩ := List.mem_map.mp hother
  exact space_not_mem_capitalize (h.spaceless word hword)

theorem titleCase_titleCase (s : String) : titleCase (titleCase s) = titleCase s := by
  have hwords : WordsOf s.toList (split (· == ' ') s.toList) := wordsOf_iff.mpr rfl
  -- both texts are made of their words, and these are the same
  have honce := wordsOf_titleCase hwords
  have htwice := wordsOf_titleCase honce
  have hsame : capitalize ∘ capitalize = capitalize := funext capitalize_capitalize
  rw [List.map_map, hsame] at htwice
  apply String.toList_injective
  rw [← htwice.joined, honce.joined]

/-- Title case leaves the spaces of a text where they are between its words, puts the upper case of
the first character of every word in the place of that character, keeps whatever stands behind it,
and does nothing to a text that is in title case. -/
theorem titleCase_raises_words (s : String) :
    ∃ words raised : List (List Char),
      (∀ parts, WordsOf s.toList parts ↔ parts = words) ∧
      (∀ parts, WordsOf (titleCase s).toList parts ↔ parts = raised) ∧
      List.Forall₂ Raised words raised ∧
      (titleCase s).toList.count ' ' = s.toList.count ' ' ∧
      words.length = s.toList.count ' ' + 1 ∧
      titleCase (titleCase s) = titleCase s := by
  have hwords : WordsOf s.toList (split (· == ' ') s.toList) := wordsOf_iff.mpr rfl
  have hraised := wordsOf_titleCase hwords
  refine ⟨split (· == ' ') s.toList, (split (· == ' ') s.toList).map capitalize,
    fun parts => wordsOf_iff, ?_, ?_, ?_, hwords.length, titleCase_titleCase s⟩
  · intro parts
    rw [wordsOf_iff, ← wordsOf_iff.mp hraised]
  · apply List.forall₂_map_right_iff.mpr
    exact List.forall₂_same.mpr fun word _ => raised_capitalize word
  · have hlength := hraised.length
    rw [List.length_map, hwords.length] at hlength
    omega

example : titleCase " ßuppe  ŉ, über" = " SSuppe  ʼN, Über" := by decide +kernel

end RecipeClient.Text
