/-!
# Blank characters

The characters with the Unicode property `White_Space`, and what trimming does with them.
-/

namespace RecipeClient.Text

/-- The ranges of the property `White_Space`, as code points, both ends included. -/
def blankRanges : List (Nat × Nat) :=
  [(0x09, 0x0D), (0x20, 0x20), (0x85, 0x85), (0xA0, 0xA0), (0x1680, 0x1680), (0x2000, 0x200A),
   (0x2028, 0x2029), (0x202F, 0x202F), (0x205F, 0x205F), (0x3000, 0x3000)]

/-- Whether a character is white space. -/
def isBlank (c : Char) : Bool :=
  blankRanges.any fun r => r.1 ≤ c.toNat && c.toNat ≤ r.2

/-- Every character that is white space in ASCII is blank. -/
theorem isBlank_of_isWhitespace {c : Char} (h : c.isWhitespace = true) : isBlank c = true := by
  simp only [Char.isWhitespace, Bool.or_eq_true, decide_eq_true_eq] at h
  rcases h with ((rfl | rfl) | rfl) | rfl <;> decide

/-- A text without its leading blanks. -/
def trimStart (cs : List Char) : List Char := cs.dropWhile isBlank

/-- A text without its trailing characters of a kind. -/
def trimEndWhile (p : Char → Bool) (cs : List Char) : List Char :=
  (cs.reverse.dropWhile p).reverse

/-- A text without its leading and trailing blanks. -/
def trim (cs : List Char) : List Char := trimEndWhile isBlank (trimStart cs)

/-- Whether a text consists of blanks only; the empty text does. -/
def isAllBlank (s : String) : Bool := s.toList.all isBlank

/-- An address without its trailing slashes. -/
def withoutTrailingSlashes (s : String) : String :=
  String.ofList (trimEndWhile (· == '/') s.toList)

end RecipeClient.Text
