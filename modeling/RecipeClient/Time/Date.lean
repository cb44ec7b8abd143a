import RecipeClient.Json.Scan
import RecipeClient.Text.Blank

/-!
# Calendar dates

Dates of the Gregorian calendar, carried back before its introduction, with a year zero and
negative years before it. A date is written as year, month and day with dashes between them; a
year outside 0 to 9999 has a sign and at least four digits. Reading also takes one-digit months
and days, any number of digits in a year with a sign, and blanks before each part and at the end.
-/

namespace RecipeClient

open Json (DateProblem)

namespace Date

/-- Whether February has a day more in a year. -/
def isLeap (year : Int) : Bool := year % 4 = 0 ∧ (year % 100 ≠ 0 ∨ year % 400 = 0)

/-- The number of days of a month. -/
def daysIn (year : Int) (month : Nat) : Nat :=
  if month = 2 then if isLeap year then 29 else 28
  else if month = 4 ∨ month = 6 ∨ month = 9 ∨ month = 11 then 30
  else 31

/-- The first year that dates can have. -/
def firstYear : Int := -262143

/-- The last year that dates can have. -/
def lastYear : Int := 262142

/-- What makes a year, a month and a day a date. -/
def Valid (year : Int) (month day : Nat) : Prop :=
  (firstYear ≤ year ∧ year ≤ lastYear) ∧ (1 ≤ month ∧ month ≤ 12) ∧
    (1 ≤ day ∧ day ≤ daysIn year month)

instance (year : Int) (month day : Nat) : Decidable (Valid year month day) := by
  unfold Valid; infer_instance

end Date

/-- A calendar date. -/
structure Date where
  year : Int
  /-- The month, from 1. -/
  month : Nat
  /-- The day of the month, from 1. -/
  day : Nat
  valid : Date.Valid year month day
deriving DecidableEq

namespace Date

instance : Inhabited Date := ⟨⟨1970, 1, 1, by decide⟩⟩

/-- The date with this year, month and day, if there is one. -/
def of? (year : Int) (month day : Nat) : Option Date :=
  if h : Valid year month day then some ⟨year, month, day, h⟩ else none

/-! ## Writing -/

/-- The decimal digits of a number, with zeros in front up to a width. -/
def padded (width n : Nat) : List Char :=
  let ds := Nat.toDigits 10 n
  List.replicate (width - ds.length) '0' ++ ds

/-- A year, with a sign if it does not have one to four digits. -/
def yearChars (year : Int) : List Char :=
  if 0 ≤ year ∧ year ≤ 9999 then padded 4 year.natAbs
  else (if year < 0 then '-' else '+') :: padded 4 year.natAbs

/-- A written date. -/
def chars (d : Date) : List Char :=
  yearChars d.year ++ '-' :: (padded 2 d.month ++ '-' :: padded 2 d.day)

def text (d : Date) : String := String.ofList d.chars

/-! ## Reading -/

/-- The largest number that a part of a date may have while it is read. -/
def partLimit : Nat := Nat.pow 2 63 - 1

/-- Reads digits at the front of a text, at most `width` of them, onto a number; `begun` tells
that there was one before. -/
def readDigits (begun : Bool) (sofar : Nat) :
    (width : Nat) → List Char → Except DateProblem (Nat × List Char)
  | 0, cs => .ok (sofar, cs)
  | _ + 1, [] => if begun then .ok (sofar, []) else .error .tooShort
  | width + 1, c :: cs =>
    if c.isDigit then
      let next := 10 * sofar + (c.toNat - '0'.toNat)
      if next ≤ partLimit then readDigits true next width cs else .error .outOfRange
    else if begun then .ok (sofar, c :: cs)
    else .error .invalidCharacters

/-- Reads a year: up to four digits, or any number of them after a sign. -/
def readYear (cs : List Char) : Except DateProblem (Int × List Char) := do
  match Text.trimStart cs with
  | '-' :: rest =>
    let (n, rest) ← readDigits false 0 rest.length.succ rest
    checked (-(n : Int)) rest
  | '+' :: rest =>
    let (n, rest) ← readDigits false 0 rest.length.succ rest
    checked n rest
  | rest =>
    let (n, rest) ← readDigits false 0 4 rest
    checked n rest
where
  /-- The year, if it has at most 32 bits. -/
  checked (year : Int) (rest : List Char) : Except DateProblem (Int × List Char) :=
    if Int32.minValue.toInt ≤ year ∧ year ≤ Int32.maxValue.toInt then .ok (year, rest)
    else .error .outOfRange

/-- Reads a month or day of one or two digits, from 1 to a bound. -/
def readPart (most : Nat) (cs : List Char) : Except DateProblem (Nat × List Char) := do
  let (n, rest) ← readDigits false 0 2 (Text.trimStart cs)
  if 1 ≤ n ∧ n ≤ most then return (n, rest) else throw .outOfRange

/-- Takes a dash, with blanks before it. -/
def takeDash (cs : List Char) : Except DateProblem (List Char) :=
  match Text.trimStart cs with
  | [] => .error .tooShort
  | '-' :: rest => .ok rest
  | _ :: _ => .error .invalidCharacters

def ofText (s : String) : Except DateProblem Date := do
  let (year, cs) ← readYear s.toList
  let cs ← takeDash cs
  let (month, cs) ← readPart 12 cs
  let cs ← takeDash cs
  let (day, cs) ← readPart 31 cs
  if Text.trimStart cs ≠ [] then throw .trailing
  match of? year month day with
  | some d => return d
  | none => throw .outOfRange

end Date

end RecipeClient
