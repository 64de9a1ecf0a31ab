import Hinting.Value

/-!
The control value table: a fixed number of values that a font provides in font
units and that its programs may replace.
-/

namespace Hinting

structure ControlValues where
  values : List Value := []
deriving DecidableEq

namespace ControlValues

def ofFontUnits (units : List Int16) : ControlValues :=
  ⟨units.map Value.ofInt16⟩

def size (table : ControlValues) : Nat := table.values.length

def isEmpty (table : ControlValues) : Bool := table.values.isEmpty

def outOfRange (index : UInt32) : Fault :=
  .invalidIndex .controlValue (.ofNat index.toNat)

def get (table : ControlValues) (index : UInt32) : Except Fault Value :=
  match table.values[index.toNat]? with
  | some value => .ok value
  | none => .error (outOfRange index)

def set (table : ControlValues) (index : UInt32) (value : Value) :
    Except Fault ControlValues :=
  if index.toNat < table.size then .ok ⟨table.values.set index.toNat value⟩
  else .error (outOfRange index)

end ControlValues

end Hinting
