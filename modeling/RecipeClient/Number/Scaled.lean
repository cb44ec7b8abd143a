import RecipeClient.Number.Double

/-!
# Doubles from decimal digits

A written decimal is a run of digits with a power of ten. It is read in two steps. The digits go
into a significand of 64 bits; once the next digit would not fit, the remaining ones only count
as a power of ten (before the point) or not at all (after it). Then the significand becomes a
double and is scaled by a double power of ten with one rounding each. The result is therefore
the nearest double only while both steps are exact, as they are for up to 15 digits and powers
up to `10^22`.
-/

namespace RecipeClient.Double

/-- The largest significand that digits are gathered into. -/
def significandLimit : Nat := Nat.pow 2 64 - 1

/-- Gathers digits into a significand until the next one would not fit; the second part tells how
many digits were left over. -/
def gather : Nat → List Char → Nat × Nat
  | significand, [] => (significand, 0)
  | significand, digit :: digits =>
    let next := significand * 10 + (digit.toNat - '0'.toNat)
    if next ≤ significandLimit then gather next digits
    else (significand, digits.length + 1)

/-- The largest power of ten that is finite, and so the largest one scaled by at once. -/
def largestPower : Nat := 308

/-- Divides a magnitude by `10^k`, at most `10^308` at a time. -/
def scaleDown (units k : Nat) : Nat :=
  if k ≤ largestPower then divUnits units (unitsOfTenTo k)
  else if units = 0 then 0
  else scaleDown (divUnits units (unitsOfTenTo largestPower)) (k - largestPower)
termination_by k
decreasing_by simp only [largestPower] at *; omega

/-- The magnitude of `significand · 10^exponent`; one too large has no representable count. -/
def scaledUnits (significand : Nat) (exponent : Int) : Nat :=
  let units := roundUnits (significand * unitsPerOne) 1
  if exponent < 0 then scaleDown units exponent.natAbs
  else if units = 0 then 0
  else if exponent.natAbs ≤ largestPower then mulUnits units (unitsOfTenTo exponent.natAbs)
  else tooManyUnits

/-- The double read for `significand · 10^exponent`, or `none` beyond the finite range. -/
def ofScaled? (negative : Bool) (significand : Nat) (exponent : Int) : Option Double :=
  ofUnits? negative (scaledUnits significand exponent)

end RecipeClient.Double
