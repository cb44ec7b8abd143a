/-!
# Finite doubles

A finite binary64 number is a sign and a count of units of `2^-1074`, the smallest positive
double. A count is representable when it has at most 53 significant bits, so rounding an exact
ratio is rounding to the nearest multiple of a power of two, with ties to the even multiple.

Everything here is exact arithmetic on natural numbers: no machine floating point is involved.
-/

namespace RecipeClient

namespace Double

/-- The units in one: a count `u` stands for the magnitude `u / 2^1074`. -/
def unitsPerOne : Nat := Nat.pow 2 1074

/-- The number of bits that the count of a finite double has at most. -/
def mostBits : Nat := 1024 + 1074

/-- The least count that is too large for a finite double. -/
def tooManyUnits : Nat := Nat.pow 2 mostBits

/-- The distance from a count to the next larger representable one: 53 bits are significant. -/
def spacing (units : Nat) : Nat := Nat.pow 2 (units.log2 - 52)

/-- A count of units that a double holds exactly. -/
def Representable (units : Nat) : Prop :=
  units % spacing units = 0 ∧ units.log2 < mostBits

instance (units : Nat) : Decidable (Representable units) := by
  unfold Representable; infer_instance

end Double

/-- A finite binary64 number; both zeros are included and differ in their sign. -/
structure Double where
  /-- Whether the sign bit is set. -/
  negative : Bool
  /-- The magnitude, counted in units of `2^-1074`. -/
  units : Nat
  /-- The magnitude has no more bits than a double keeps. -/
  representable : Double.Representable units
deriving DecidableEq

namespace Double

/-- Zero is held exactly. -/
theorem representable_zero : Representable 0 := by
  constructor
  · exact Nat.zero_mod _
  · decide

/-- The double that is zero, with the given sign. -/
def zero (negative : Bool) : Double :=
  ⟨negative, 0, representable_zero⟩

instance : Inhabited Double := ⟨zero false⟩

/-- The double with this sign and magnitude, if the count of units is representable. -/
def ofUnits? (negative : Bool) (units : Nat) : Option Double :=
  if h : Representable units then some ⟨negative, units, h⟩ else none

/-! ## Rounding -/

/-- The natural number nearest to a ratio; a tie goes to the even neighbour. -/
def nearestEven (num den : Nat) : Nat :=
  let q := num / den
  let r := num % den
  if 2 * r < den then q
  else if den < 2 * r then q + 1
  else if q % 2 = 0 then q else q + 1

/-- The count of units nearest to the ratio `num / den` of units, among those with 53 significant
bits. It is not bounded: a count that is too large is refused by `ofUnits?`. -/
def roundUnits (num den : Nat) : Nat :=
  let g := spacing (num / den)
  nearestEven num (den * g) * g

/-- The double nearest to `num / den`, or `none` beyond the finite range. -/
def ofRatio? (negative : Bool) (num den : Nat) : Option Double :=
  ofUnits? negative (roundUnits (num * unitsPerOne) den)

/-- The magnitude of the double nearest to `10^k`, in units. -/
def unitsOfTenTo (k : Nat) : Nat := roundUnits (Nat.pow 10 k * unitsPerOne) 1

/-- The units of a rounded product of two magnitudes. -/
def mulUnits (a b : Nat) : Nat := roundUnits (a * b) unitsPerOne

/-- The units of a rounded quotient of two magnitudes; the divisor is not zero. -/
def divUnits (a b : Nat) : Nat := roundUnits (a * unitsPerOne) b

end Double

end RecipeClient
