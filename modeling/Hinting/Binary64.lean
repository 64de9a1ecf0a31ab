import Hinting.Decimal

/-!
Double-precision numbers as exact data.

A finite double is a sign, a significand and a power of two. Nothing here goes
through floating-point operations, so every result is exact.
-/

namespace Hinting

/-- A double-precision number. `finite` stands for
`± significand * 2 ^ exponent`. -/
inductive Binary64
  | finite (negative : Bool) (significand : Nat) (exponent : Int)
  | infinite (negative : Bool)
  | notANumber
deriving DecidableEq

namespace Binary64

/-- The least exponent, that of zero and of the subnormal numbers. -/
def leastExponent : Int := -1074

/-! ## Bit patterns -/

def ofBits (bits : UInt64) : Binary64 :=
  let negative := Nat.pow 2 63 ≤ bits.toNat
  let field := bits.toNat / Nat.pow 2 52 % Nat.pow 2 11
  let fraction := bits.toNat % Nat.pow 2 52
  if field = 2047 then
    if fraction = 0 then infinite negative else notANumber
  else if field = 0 then finite negative fraction leastExponent
  else finite negative (Nat.pow 2 52 + fraction) (leastExponent + (field - 1 : Nat))

example : ofBits 0xC002000000000000 = finite true (9 * 2 ^ 49) (-51) := by decide

/-- The bit pattern of a double whose significand is below `2 ^ 53`, and below
`2 ^ 52` only at the least exponent. -/
def toBits : Binary64 → UInt64
  | finite negative significand exponent =>
      let sign := if negative then Nat.pow 2 63 else 0
      let field :=
        if significand < Nat.pow 2 52 then 0 else (exponent - leastExponent).toNat + 1
      .ofNat (sign + field * Nat.pow 2 52 + significand % Nat.pow 2 52)
  | infinite negative => .ofNat ((if negative then Nat.pow 2 63 else 0) + 2047 * Nat.pow 2 52)
  | notANumber => 0x7FF8000000000000

example : (finite true (9 * 2 ^ 49) (-51)).toBits = 0xC002000000000000 := by decide

/-! ## Whole numbers -/

def roundHalfEven (number places : Nat) : Nat :=
  let unit := Nat.pow 2 places
  let below := number / unit
  let twice := 2 * (number % unit)
  if twice < unit ∨ (twice = unit ∧ below % 2 = 0) then below else below + 1

/-- The double nearest to a number below `2 ^ 1023`, of two equally near ones the
one with an even significand. -/
def ofNat (number : Nat) (negative : Bool) : Binary64 :=
  if number = 0 then finite negative 0 leastExponent
  else if number.log2 ≤ 52 then
    finite negative (number * Nat.pow 2 (52 - number.log2)) (number.log2 - 52)
  else
    let significand := roundHalfEven number (number.log2 - 52)
    if significand = Nat.pow 2 53 then finite negative (Nat.pow 2 52) (number.log2 - 51)
    else finite negative significand (number.log2 - 52)

def ofInt (number : Int) : Binary64 :=
  ofNat number.natAbs (number < 0)

example : (ofInt (2 ^ 53 + 1)).toBits = (ofInt (2 ^ 53)).toBits := by decide

/-- Multiply by a power of two that keeps the number within range. -/
def scale (power : Int) : Binary64 → Binary64
  | finite negative significand exponent =>
      finite negative significand (if significand = 0 then exponent else exponent + power)
  | other => other

/-! ## Sixty-fourths -/

/-- The number in sixty-fourths, rounded to nearest with a half away from zero.
A number out of range becomes the nearest bound, and what is not a number
becomes zero. -/
def toSixtyFourths : Binary64 → Int64
  | finite negative significand exponent =>
      let magnitude : Int :=
        match exponent + 6 with
        | .ofNat power => (significand * Nat.pow 2 power : Nat)
        | .negSucc places => ((significand + Nat.pow 2 places) / Nat.pow 2 (places + 1) : Nat)
      Int64.ofIntClamp (if negative then -magnitude else magnitude)
  | infinite negative => if negative then Int64.minValue else Int64.maxValue
  | notANumber => 0

example : (ofBits 0x3F80000000000000).toSixtyFourths = 1 := by decide

/-! ## Shortest decimal text -/

/-- The numbers that round to a finite double, in units of `10 ^ -places` for
the least `places` that make every bound whole. A double with an even
significand also takes the ties. Below a power of two the neighbour is only half
as far away. -/
def roundingInterval (significand : Nat) (exponent : Int) : Interval × Nat :=
  let places := (2 - exponent).toNat
  let unit := Nat.pow 5 places * Nat.pow 2 (exponent - 2 + places).toNat
  let lower := if significand = Nat.pow 2 52 ∧ leastExponent < exponent then 1 else 2
  ({ low := (4 * significand - lower) * unit
     value := 4 * significand * unit
     high := (4 * significand + 2) * unit
     closed := significand % 2 = 0 }, places)

/-- The fewest digits that read back as the same double, without an exponent. -/
def toShortest : Binary64 → String
  | finite negative significand exponent =>
      let (interval, places) := roundingInterval significand exponent
      let digits :=
        if significand = 0 then "0" else (interval.shortest.scale (-places)).toPositional
      if negative then "-" ++ digits else digits
  | infinite negative => if negative then "-inf" else "inf"
  | notANumber => "NaN"

example : (ofBits 0xC002000000000000).toShortest = "-2.25" := by decide +kernel

end Binary64

end Hinting
