import Hinting.Instruction

/-!
Where a conditional goes on.

Conditionals are not nested in the program text: an IF that is not taken, and an
ELSE at the end of a taken branch, look ahead for the marker that belongs to
them. Markers of conditionals that open on the way are passed over.
-/

namespace Hinting

/-- The number of instructions up to and including the marker that ends a
skipped branch: the EIF of the conditional or, with `stopAtElse`, its ELSE.
`nested` conditionals have begun on the way and not ended. -/
def distanceToMarker? (stopAtElse : Bool) : (nested : Nat) → Program → Option Nat
  | _, [] => none
  | nested, .control .beginIf :: rest =>
      (distanceToMarker? stopAtElse (nested + 1) rest).map (· + 1)
  | nested, .control .beginElse :: rest =>
      if stopAtElse && nested = 0 then some 1
      else (distanceToMarker? stopAtElse nested rest).map (· + 1)
  | 0, .control .endIf :: _ => some 1
  | nested + 1, .control .endIf :: rest =>
      (distanceToMarker? stopAtElse nested rest).map (· + 1)
  | nested, _ :: rest => (distanceToMarker? stopAtElse nested rest).map (· + 1)

/-- The inner conditional is passed over as a whole. -/
example : distanceToMarker? true 0
    [.control .beginIf, .control .beginElse, .control .endIf, .control .beginElse] =
      some 4 := by decide

end Hinting
