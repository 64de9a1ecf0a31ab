import Hinting.Value
import Std.Data.ExtTreeMap

/-!
The storage area: values at numbered locations, kept from one program to the
next. A location holds nothing until it is written.
-/

namespace Hinting

/-- The written locations in ascending order, each with its latest value. -/
structure Storage where
  cells : Std.ExtTreeMap UInt64 Value := ∅
deriving DecidableEq

namespace Storage

def get? (storage : Storage) (location : UInt64) : Option Value :=
  storage.cells[location]?

def read (storage : Storage) (location : UInt64) : Except Fault Value :=
  match storage.get? location with
  | some value => .ok value
  | none => .error (.uninitializedStorage location)

def write (storage : Storage) (location : UInt64) (value : Value) : Storage :=
  ⟨storage.cells.insert location value⟩

def size (storage : Storage) : Nat := storage.cells.size

def isEmpty (storage : Storage) : Bool := storage.cells.isEmpty

def entries (storage : Storage) : List (UInt64 × Value) := storage.cells.toList

example : ((({} : Storage).write 5 (.int 7)).write 3 (.int 1)).entries =
    [(3, .int 1), (5, .int 7)] := by decide

@[simp] theorem get?_write_same (storage : Storage) (location : UInt64) (value : Value) :
    (storage.write location value).get? location = some value := by
  simp [get?, write]

theorem get?_write_other (storage : Storage) {location other : UInt64} (value : Value)
    (different : location ≠ other) :
    (storage.write location value).get? other = storage.get? other := by
  simp [get?, write, Std.ExtTreeMap.getElem?_insert, different]

theorem ext_get? {left right : Storage}
    (agree : ∀ location, left.get? location = right.get? location) : left = right := by
  cases left
  cases right
  exact congrArg Storage.mk (Std.ExtTreeMap.ext_getElem? agree)

end Storage

end Hinting
