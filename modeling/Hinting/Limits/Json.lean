import Hinting.Json.Parser
import Hinting.Json.Printer
import Hinting.Limits

/-!
Limits as JSON.
-/

namespace Hinting.Limits

/-! ## Writing -/

def toJson (limits : Limits) : Json :=
  .ofMembers [
    ("max_stack_depth", .integer limits.maxStackDepth),
    ("max_call_depth", .integer limits.maxCallDepth),
    ("max_steps",
      match limits.maxSteps with
      | some steps => .integer steps
      | none => .null)]

/-! ## Reading -/

def depthOfJson? (document : Json) : Option Nat :=
  (document.integerWithin? 0 UInt64.size).map Int.toNat

def stepsOfJson? : Json → Option (Option Nat)
  | .null => some none
  | document => (depthOfJson? document).map some

/-- Limits from what is given of them. What is missing has its default. -/
def ofParts? (stack call steps : Option Json) : Option Limits := do
  let defaults : Limits := {}
  return {
    maxStackDepth := (← stack.mapM depthOfJson?).getD defaults.maxStackDepth
    maxCallDepth := (← call.mapM depthOfJson?).getD defaults.maxCallDepth
    maxSteps := (← steps.mapM stepsOfJson?).getD defaults.maxSteps }

/-- Limits are an object without repeated limits, or an array that begins with
them in order. Other members of an object mean nothing. -/
def ofJson? : Json → Option Limits
  | .object members => do
      guard (Json.namesDecode members)
      ofParts? (← Json.member? "max_stack_depth" members)
        (← Json.member? "max_call_depth" members) (← Json.member? "max_steps" members)
  | .array elements => do
      guard (elements.length ≤ 3)
      ofParts? elements[0]? elements[1]? elements[2]?
  | _ => none

def ofJsonText? (content : String) : Option Limits := do
  ofJson? (← Json.parse? content)

end Hinting.Limits
