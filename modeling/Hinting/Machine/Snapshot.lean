import Hinting.Json.Parser
import Hinting.Json.Printer
import Hinting.Machine.Basic
import Hinting.Value.Json

/-!
Copies of what can be observed of a machine, and their JSON text.
-/

namespace Hinting

structure Snapshot where
  /-- In the order in which the values were pushed. -/
  stack : List Value
  storage : List (UInt64 × Value)
  controlValues : List Value
  functions : List UInt32
deriving DecidableEq

def Machine.snapshot (machine : Machine) : Snapshot where
  stack := machine.memory.stack.toList
  storage := machine.memory.storage.entries
  controlValues := machine.memory.controlValues.values
  functions := machine.functions.ids

namespace Snapshot

/-! ## Writing -/

def cellToJson (cell : UInt64 × Value) : Json :=
  .array [.integer cell.1.toNat, cell.2.toJson]

def toJson (snapshot : Snapshot) : Json :=
  .ofMembers [
    ("stack", .array (snapshot.stack.map Value.toJson)),
    ("storage", .array (snapshot.storage.map cellToJson)),
    ("control_values", .array (snapshot.controlValues.map Value.toJson)),
    ("functions", .array (snapshot.functions.map fun id => .integer id.toNat))]

def toText (snapshot : Snapshot) : String :=
  snapshot.toJson.pretty

/-! ## Reading -/

def cellOfJson? : Json → Option (UInt64 × Value)
  | .array [location, value] => do
      let location ← location.integerWithin? 0 UInt64.size
      return (.ofNat location.toNat, ← Value.ofJson? value)
  | _ => none

def functionOfJson? (document : Json) : Option UInt32 :=
  (document.integerWithin? 0 UInt32.size).map fun id => .ofNat id.toNat

def listOfJson? (element? : Json → Option α) : Json → Option (List α)
  | .array elements => elements.mapM element?
  | _ => none

def ofParts? (stack storage controlValues functions : Json) : Option Snapshot := do
  return {
    stack := ← listOfJson? Value.ofJson? stack
    storage := ← listOfJson? cellOfJson? storage
    controlValues := ← listOfJson? Value.ofJson? controlValues
    functions := ← listOfJson? functionOfJson? functions }

/-- A snapshot is an object that has each of the four members once, or an array
of the four in order. Other members of an object mean nothing. -/
def ofJson? : Json → Option Snapshot
  | .object members => do
      guard (Json.namesDecode members)
      let required (name : String) : Option Json := (Json.member? name members).join
      ofParts? (← required "stack") (← required "storage") (← required "control_values")
        (← required "functions")
  | .array [stack, storage, controlValues, functions] =>
      ofParts? stack storage controlValues functions
  | _ => none

def ofText? (content : String) : Option Snapshot := do
  ofJson? (← Json.parse? content)

end Snapshot

end Hinting
