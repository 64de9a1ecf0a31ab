/-!
Arithmetic on numbers in sixty-fourths.

Exact results are rounded as each operation says and then brought into range:
products and quotients stop at the bounds, ceilings wrap around.
-/

namespace Hinting.Fixed

def floor (bits : Int64) : Int64 :=
  .ofInt (bits.toInt / 64 * 64)

/-- The smallest multiple of 64 that is not below `bits`, if it is in range. -/
def ceiling (bits : Int64) : Int64 :=
  floor (bits + 63)

example : ceiling (-100) = -64 := by decide

/-- The product, rounded to nearest with a half away from zero. -/
def mul (left right : Int64) : Int64 :=
  let product := left.toInt * right.toInt
  let rounded := if product < 0 then (product - 32).tdiv 64 else (product + 32).tdiv 64
  .ofIntClamp rounded

example : mul (-32) 1 = -1 := by decide

/-- The quotient, truncated toward zero. -/
def div (left right : Int64) : Int64 :=
  .ofIntClamp ((left.toInt * 64).tdiv right.toInt)

example : div (-64) 192 = -21 := by decide

end Hinting.Fixed
