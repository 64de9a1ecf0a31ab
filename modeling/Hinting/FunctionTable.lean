import Hinting.Instruction
import Std.Data.ExtTreeMap

/-!
Function bodies by id. A body stays once it is defined.
-/

namespace Hinting

structure FunctionTable where
  bodies : Std.ExtTreeMap UInt32 Program := ∅
deriving DecidableEq

namespace FunctionTable

def get? (table : FunctionTable) (id : UInt32) : Option Program :=
  table.bodies[id]?

def contains (table : FunctionTable) (id : UInt32) : Bool :=
  table.bodies.contains id

/-- Add a body under an id that has none. -/
def define (table : FunctionTable) (id : UInt32) (body : Program) : FunctionTable :=
  ⟨table.bodies.insertIfNew id body⟩

def size (table : FunctionTable) : Nat := table.bodies.size

def isEmpty (table : FunctionTable) : Bool := table.bodies.isEmpty

/-- The defined ids in ascending order. -/
def ids (table : FunctionTable) : List UInt32 := table.bodies.keys

/-- The first definition stays. -/
example : (((({} : FunctionTable).define 5 []).define 3 []).define 5 [.stack .pop]).get? 5 =
    some [] := by decide

example : ((({} : FunctionTable).define 5 []).define 3 []).ids = [3, 5] := by decide

theorem get?_define_same (table : FunctionTable) (id : UInt32) (body : Program) :
    (table.define id body).get? id = some ((table.get? id).getD body) := by
  rw [get?, get?, define, Std.ExtTreeMap.getElem?_insertIfNew]
  cases found : table.bodies[id]? <;>
    simp [Std.ExtTreeMap.mem_iff_isSome_getElem?, found]

theorem get?_define_other (table : FunctionTable) {id other : UInt32} (body : Program)
    (different : id ≠ other) :
    (table.define id body).get? other = table.get? other := by
  simp [get?, define, Std.ExtTreeMap.getElem?_insertIfNew, different]

theorem ext_get? {left right : FunctionTable}
    (agree : ∀ id, left.get? id = right.get? id) : left = right := by
  cases left
  cases right
  exact congrArg FunctionTable.mk (Std.ExtTreeMap.ext_getElem? agree)

end FunctionTable

end Hinting
