/-!
Limits on the resources of a machine.
-/

namespace Hinting

structure Limits where
  maxStackDepth : Nat := 4096
  /-- How many function bodies may be active at once. -/
  maxCallDepth : Nat := 64
  /-- How many steps a run may take, if there is a bound at all. -/
  maxSteps : Option Nat := none
deriving DecidableEq

end Hinting
