/-!
Decimal numbers and their positional text.

`shortestBetween` picks the decimal with the fewest digits in an interval around
a number. It works on whole numbers: a caller scales the interval first.
-/

namespace Hinting

/-- The number `coefficient * 10 ^ exponent`. -/
structure Decimal where
  coefficient : Nat
  exponent : Int
deriving DecidableEq

/-- A number between two bounds, in whole units. `closed` says whether the
bounds belong to the interval. -/
structure Interval where
  low : Nat
  value : Nat
  high : Nat
  closed : Bool

namespace Interval

def contains (interval : Interval) (number : Nat) : Bool :=
  if interval.closed then interval.low ≤ number && number ≤ interval.high
  else interval.low < number && number < interval.high

/-- The multiple of `unit` inside the interval that is nearest to its value, as a
count of units. Only the two neighbours of the value can be it. Of two that are
equally near the larger one is taken. -/
def nearestMultiple? (interval : Interval) (unit : Nat) : Option Nat :=
  let below := interval.value / unit
  let above := below + 1
  if interval.contains (above * unit) &&
      (!interval.contains (below * unit) ||
        above * unit - interval.value ≤ interval.value - below * unit) then
    some above
  else if interval.contains (below * unit) then some below
  else none

/-- Search the powers of ten downward from `10 ^ power` for the first that has a
multiple inside the interval. A power of zero is a hit at the value itself. -/
def shortestFrom (interval : Interval) : (power : Nat) → Decimal
  | 0 => ⟨interval.value, 0⟩
  | power + 1 =>
      match interval.nearestMultiple? (10 ^ (power + 1)) with
      | some coefficient => ⟨coefficient, (power + 1 : Nat)⟩
      | none => interval.shortestFrom power

/-- The decimal with the fewest digits inside the interval. A power of ten above
the upper bound has no multiple inside, so the search starts there. -/
def shortest (interval : Interval) : Decimal :=
  interval.shortestFrom (Nat.toDigits 10 interval.high).length

example : (Interval.mk 1235 1246 1260 true).shortest = ⟨125, 1⟩ := by decide

end Interval

namespace Decimal

def scale (decimal : Decimal) (power : Int) : Decimal :=
  { decimal with exponent := decimal.exponent + power }

/-- The text without an exponent: zeros fill the places between the digits and
the point, and a whole number has no point. -/
def toPositional (decimal : Decimal) : String :=
  let digits := Nat.toDigits 10 decimal.coefficient
  match decimal.exponent with
  | .ofNat zeros => String.ofList (digits ++ List.replicate zeros '0')
  | .negSucc places =>
      let places := places + 1
      let padded := List.replicate (places + 1 - digits.length) '0' ++ digits
      String.ofList (padded.take (padded.length - places) ++ '.' ::
        padded.drop (padded.length - places))

example : (Decimal.mk 25 (-3)).toPositional = "0.025" := by decide
example : (Decimal.mk 25 2).toPositional = "2500" := by decide

end Decimal

end Hinting
