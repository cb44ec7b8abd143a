import RecipeClient.Number.Double

/-!
# The shortest digits of a double

Among the decimals that round to a given double, the one with the fewest digits is written, and
among those the nearest; of two equally near ones the one with the even last digit. The decimals
that round to it form an interval around it, whose ends belong to it when the significand is
even. For one digit, two digits and so on up to seventeen, the neighbours of the double on the
grid with that many digits are tried, in exact natural arithmetic.
-/

namespace RecipeClient.Double

/-- The decimal digits of a natural number; zero has one digit. -/
def decimalDigits (n : Nat) : List Char := Nat.toDigits 10 n

/-- The exponent `e` with `10^e ≤ num / den < 10^(e+1)`, for a positive ratio. -/
def decimalExponent (num den : Nat) : Int :=
  if den ≤ num then ((decimalDigits (num / den)).length : Int) - 1
  else -((decimalDigits ((den - 1) / num)).length : Int)

/-- The decimals that round to a magnitude, and the magnitude itself, in quarters of a unit. -/
structure RoundingInterval where
  /-- The lower end. -/
  low : Nat
  /-- The magnitude. -/
  middle : Nat
  /-- The upper end. -/
  high : Nat
  /-- Whether both ends round to the magnitude as well. -/
  closed : Bool

/-- The interval of a positive magnitude. Below a power of two the next double is only half as
far away as above it. -/
def roundingInterval (units : Nat) : RoundingInterval :=
  let g := spacing units
  let significand := units / g
  let below := if significand = Nat.pow 2 52 ∧ 1 < g then g else 2 * g
  ⟨4 * units - below, 4 * units, 4 * units + 2 * g, significand % 2 = 0⟩

/-- Whether the decimal `num / den` lies in an interval given in quarters of a unit. -/
def RoundingInterval.admits (i : RoundingInterval) (num den : Nat) : Bool :=
  if i.closed then i.low * den ≤ num && num ≤ i.high * den
  else i.low * den < num && num < i.high * den

/-- A decimal `digits · 10^exponent`. -/
structure Decimal where
  /-- The digits as a number. -/
  digits : Nat
  /-- The power of ten. -/
  exponent : Int
deriving DecidableEq, Inhabited

/-- Which of two neighbours on a grid is chosen for the middle of an interval, if any: the lower
one is `q`, the upper one `q + 1`, and the grid's step is `num / den` quarters of a unit. -/
def RoundingInterval.choose (i : RoundingInterval) (q num den : Nat) : Option Nat :=
  let lower := i.admits (q * num) den
  let upper := i.admits ((q + 1) * num) den
  if lower && upper then
    let toLower := i.middle * den - q * num
    let toUpper := (q + 1) * num - i.middle * den
    if toLower < toUpper then some q
    else if toUpper < toLower then some (q + 1)
    else some (if q % 2 = 0 then q else q + 1)
  else if lower then some q
  else if upper then some (q + 1)
  else none

/-- The decimal on the grid `10^exponent` that is chosen for a magnitude, if one rounds to it. -/
def onGrid (units : Nat) (exponent : Int) : Option Decimal :=
  let i := roundingInterval units
  let power := Nat.pow 10 exponent.natAbs
  let num := if 0 ≤ exponent then power * (4 * unitsPerOne) else 4 * unitsPerOne
  let den := if 0 ≤ exponent then 1 else power
  (i.choose (i.middle * den / num) num den).map (⟨·, exponent⟩)

/-- The shortest decimal with at least `n` and fewer than `n + more` digits. -/
def shortestFrom (units : Nat) (top : Int) (n : Nat) : Nat → Decimal
  | 0 => ⟨0, 0⟩
  | more + 1 =>
    match onGrid units (top - n + 1) with
    | some d => d
    | none => shortestFrom units top (n + 1) more

/-- The shortest decimal that rounds to a positive magnitude; seventeen digits always suffice. -/
def shortest (units : Nat) : Decimal :=
  shortestFrom units (decimalExponent units unitsPerOne) 1 17

/-! ## Layout -/

/-- How a number is laid out: the positions of the point for which it is written without an
exponent, counted from the first digit. -/
structure Layout where
  /-- The least position of the point without an exponent. -/
  leastPoint : Int
  /-- The greatest position of the point without an exponent. -/
  greatestPoint : Int

/-- Numbers from `0.00001` up to below `10^16` are written without an exponent. -/
def layout : Layout := ⟨-4, 16⟩

/-- Digits with the point before the first, among them, or after zeros that follow them. -/
def positional (digits : List Char) (point : Int) : List Char :=
  if point ≤ 0 then "0.".toList ++ List.replicate point.natAbs '0' ++ digits
  else if digits.length ≤ point.natAbs then
    digits ++ List.replicate (point.natAbs - digits.length) '0' ++ ".0".toList
  else digits.take point.natAbs ++ '.' :: digits.drop point.natAbs

/-- Digits with the point after the first one, and a signed exponent. -/
def exponential (digits : List Char) (exponent : Int) : List Char :=
  let mantissa := match digits with
    | d :: e :: rest => d :: '.' :: e :: rest
    | short => short
  mantissa ++ 'e' :: (if exponent < 0 then '-' else '+') :: decimalDigits exponent.natAbs

def magnitudeText (units : Nat) : List Char :=
  if units = 0 then "0.0".toList
  else
    let d := shortest units
    let digits := decimalDigits d.digits
    let point := digits.length + d.exponent
    let digits := (digits.reverse.dropWhile (· == '0')).reverse
    if layout.leastPoint ≤ point ∧ point ≤ layout.greatestPoint then positional digits point
    else exponential digits (point - 1)

/-- The text of a double: its shortest digits, always with a point or an exponent. -/
def text (d : Double) : List Char :=
  if d.negative then '-' :: magnitudeText d.units else magnitudeText d.units

end RecipeClient.Double
