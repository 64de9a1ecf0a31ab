import Hinting.Execution.StackOperation
import Hinting.Proofs.Checked.Partial

/-!
Stacks whose values are counted from the bottom.

The place of a value is found by subtraction, and values are read, taken out and exchanged at such
places. What an operation requires of the stack makes all of this possible.
-/

namespace Hinting.Checked

/-! ## Lists from the other end -/

section

variable {items : List α} {depth : Nat}

theorem getElem?_reverse_of_lt (inside : depth < items.length) :
    items.reverse[items.length - 1 - depth]? = items[depth]? := by
  rw [List.getElem?_reverse (by omega)]
  congr 1
  omega

theorem eraseIdx_reverse_of_lt (inside : depth < items.length) :
    items.reverse.eraseIdx (items.length - 1 - depth) = (items.eraseIdx depth).reverse := by
  rw [List.eraseIdx_eq_take_drop_succ, List.eraseIdx_eq_take_drop_succ, List.take_reverse,
    List.drop_reverse, List.reverse_append]
  congr 3 <;> omega

theorem set_reverse_of_lt (inside : depth < items.length) (item : α) :
    items.reverse.set (items.length - 1 - depth) item = (items.set depth item).reverse := by
  refine List.ext_getElem (by simp) fun position before after => ?_
  simp only [List.length_reverse, List.length_set] at before after
  simp only [List.getElem_set, List.getElem_reverse, List.length_set]
  congr 1
  rw [eq_iff_iff]
  omega

theorem remove?_reverse (inside : depth < items.length) :
    remove? items.reverse (items.length - 1 - depth) =
      some (items[depth], (items.eraseIdx depth).reverse) := by
  rw [remove?, getElem?_reverse_of_lt inside, List.getElem?_eq_getElem inside,
    eraseIdx_reverse_of_lt inside]
  rfl

theorem exchange?_reverse {left right : Nat} (leftInside : left < items.length)
    (rightInside : right < items.length) :
    exchange? items.reverse (items.length - 1 - left) (items.length - 1 - right) =
      some ((items.set left items[right]).set right items[left]).reverse := by
  have longer : right < (items.set left items[right]).length := by rwa [List.length_set]
  have both := set_reverse_of_lt longer items[left]
  rw [List.length_set, ← set_reverse_of_lt leftInside] at both
  rw [exchange?, getElem?_reverse_of_lt leftInside, getElem?_reverse_of_lt rightInside,
    List.getElem?_eq_getElem leftInside, List.getElem?_eq_getElem rightInside]
  exact congrArg some both

end

/-! ## Small operations -/

/-- Where the value `depth` places below the top is, counted from the bottom. -/
def fromBottom? (size depth : Nat) : Option Nat := do
  subtract? (← subtract? size 1) depth

theorem fromBottom?_of_lt {size depth : Nat} (inside : depth < size) :
    fromBottom? size depth = some (size - 1 - depth) := by
  rw [fromBottom?, subtract?_of_le (by omega)]
  exact subtract?_of_le (by omega)

def peek (depth : Nat) : Checked Fault OperandStack Value := do
  total (OperandStack.require (depth + 1))
  let values := (← get).toList
  let position ← defined (fromBottom? values.length depth)
  defined values[position]?

def removeAt (depth : Nat) : Checked Fault OperandStack Value := do
  total (OperandStack.require (depth + 1))
  let values := (← get).toList
  let position ← defined (fromBottom? values.length depth)
  let (value, others) ← defined (remove? values position)
  modify fun stack => { stack with values := others.reverse }
  return value

def swap (left right : Nat) : Checked Fault OperandStack Unit := do
  total (OperandStack.require (max left right + 1))
  let values := (← get).toList
  let leftPosition ← defined (fromBottom? values.length left)
  let rightPosition ← defined (fromBottom? values.length right)
  let exchanged ← defined (exchange? values leftPosition rightPosition)
  modify fun stack => { stack with values := exchanged.reverse }

/-- Behind a requirement the values are there. -/
theorem require_bind_congr {needed : Nat} {left right : Checked Fault OperandStack α}
    (same : ∀ stack : OperandStack, needed ≤ stack.size → left stack = right stack) :
    (do total (OperandStack.require needed); left) =
      (do total (OperandStack.require needed); right) := by
  funext stack
  by_cases enough : needed ≤ stack.size
  · have required : OperandStack.require needed stack = .ok () stack := if_pos enough
    rw [bind_apply_of_ok (total_of_ok required), bind_apply_of_ok (total_of_ok required)]
    exact same stack enough
  · have refused : OperandStack.require needed stack =
        .error (.stackUnderflow needed stack.size) stack := if_neg enough
    rw [bind_apply_of_error (total_of_error refused), bind_apply_of_error (total_of_error refused)]

theorem require_bind_eq {needed : Nat} {next : Checked Fault OperandStack α}
    {action : StackAction α}
    (present : ∀ stack : OperandStack, needed ≤ stack.size → next stack = total action stack)
    (absent : ∀ stack : OperandStack, ¬needed ≤ stack.size →
      action stack = .error (.stackUnderflow needed stack.size) stack) :
    (do total (OperandStack.require needed); next) = total action := by
  rw [require_bind_congr present]
  funext stack
  by_cases enough : needed ≤ stack.size
  · have required : OperandStack.require needed stack = .ok () stack := if_pos enough
    rw [bind_apply_of_ok (total_of_ok required)]
  · have refused : OperandStack.require needed stack =
        .error (.stackUnderflow needed stack.size) stack := if_neg enough
    rw [bind_apply_of_error (total_of_error refused), total_of_error (absent stack enough)]

theorem getElem?_of_missing {depth : Nat} {stack : OperandStack}
    (missing : ¬depth + 1 ≤ stack.size) : stack.values[depth]? = none :=
  List.getElem?_eq_none (Nat.le_of_lt_succ (Nat.lt_of_not_le missing))

theorem peek_eq (depth : Nat) : peek depth = total (OperandStack.peek depth) := by
  refine require_bind_eq (fun stack enough => ?_) (fun stack missing => ?_)
  · have inside : depth < stack.values.length := enough
    have found : stack.values[depth]? = some stack.values[depth] :=
      List.getElem?_eq_getElem inside
    have same : stack.toList[stack.toList.length - 1 - depth]? = some stack.values[depth] := by
      rw [OperandStack.toList, List.length_reverse, getElem?_reverse_of_lt inside, found]
    have position : fromBottom? stack.toList.length depth =
        some (stack.toList.length - 1 - depth) :=
      fromBottom?_of_lt (by rwa [OperandStack.toList, List.length_reverse])
    have read : OperandStack.peek depth stack = .ok stack.values[depth] stack := by
      rw [OperandStack.peek, found]
    rw [total_of_ok read, get_bind_apply, position, defined_some, pure_bind, same]
    rfl
  · rw [OperandStack.peek, getElem?_of_missing missing]

theorem removeAt_of_missing {depth : Nat} {stack : OperandStack}
    (missing : ¬depth + 1 ≤ stack.size) :
    OperandStack.removeAt depth stack = .error (.stackUnderflow (depth + 1) stack.size) stack := by
  rw [OperandStack.removeAt, getElem?_of_missing missing]

theorem removeAt_eq (depth : Nat) : removeAt depth = total (OperandStack.removeAt depth) := by
  refine require_bind_eq (fun stack enough => ?_) (fun stack missing => ?_)
  · have inside : depth < stack.values.length := enough
    have position : fromBottom? stack.toList.length depth =
        some (stack.values.length - 1 - depth) := by
      rw [OperandStack.toList, List.length_reverse, fromBottom?_of_lt inside]
    have removed := remove?_reverse inside
    have taken : OperandStack.removeAt depth stack =
        .ok stack.values[depth] { stack with values := stack.values.eraseIdx depth } := by
      rw [OperandStack.removeAt, List.getElem?_eq_getElem inside]
    rw [total_of_ok taken, get_bind_apply, position, defined_some, pure_bind, OperandStack.toList,
      removed, defined_some, pure_bind]
    change EStateM.Result.ok _ { stack with
      values := (stack.values.eraseIdx depth).reverse.reverse } = _
    rw [List.reverse_reverse]
  · exact removeAt_of_missing missing

theorem swap_eq (left right : Nat) : swap left right = total (OperandStack.swap left right) := by
  refine require_bind_eq (fun stack enough => ?_) (fun stack missing => ?_)
  · have leftInside : left < stack.values.length :=
      Nat.lt_of_le_of_lt (Nat.le_max_left left right) enough
    have rightInside : right < stack.values.length :=
      Nat.lt_of_le_of_lt (Nat.le_max_right left right) enough
    have positions : fromBottom? stack.toList.length left =
          some (stack.values.length - 1 - left) ∧
        fromBottom? stack.toList.length right = some (stack.values.length - 1 - right) := by
      rw [OperandStack.toList, List.length_reverse]
      exact ⟨fromBottom?_of_lt leftInside, fromBottom?_of_lt rightInside⟩
    have exchanged := exchange?_reverse leftInside rightInside
    have swapped : OperandStack.swap left right stack =
        .ok () { stack with
          values := (stack.values.set left stack.values[right]).set right stack.values[left] } := by
      rw [OperandStack.swap, List.getElem?_eq_getElem leftInside,
        List.getElem?_eq_getElem rightInside]
    rw [total_of_ok swapped, get_bind_apply, positions.1, positions.2, defined_some, pure_bind,
      defined_some, pure_bind, OperandStack.toList, exchanged, defined_some, pure_bind]
    change EStateM.Result.ok _ { stack with
      values :=
        ((stack.values.set left stack.values[right]).set right stack.values[left]).reverse.reverse
      } = _
    rw [List.reverse_reverse]
  · have absent : stack.values[left]? = none ∨ stack.values[right]? = none := by
      rw [List.getElem?_eq_none_iff, List.getElem?_eq_none_iff]
      rw [OperandStack.size] at missing
      omega
    rw [OperandStack.swap]
    rcases absent with absent | absent
    · rw [absent]
    · rw [absent]
      cases stack.values[left]? <;> rfl

/-! ## Stack operations -/

def elementDepth : Checked Fault OperandStack Nat := do
  let number := (← peek 0).integerPart
  let size := (← get).size
  if number < 1 then throw (.failure (.invalidIndex .stackDepth number))
  else do
    let below ← defined (subtract? size 1)
    if below < number.toInt.toNat then
      throw (.failure (.stackUnderflow (number.toInt.toNat + 1) size))
    else defined (subtract? number.toInt.toNat 1)

theorem elementDepth_eq : elementDepth = total StackOperation.elementDepth := by
  funext stack
  rw [elementDepth, StackOperation.elementDepth, total_bind, peek_eq]
  cases peeked : OperandStack.peek 0 stack with
  | error failure after =>
      rw [bind_apply_of_error (total_of_error peeked), bind_apply_of_error (total_of_error peeked)]
  | ok value after =>
      have present : 1 ≤ after.size := by
        rw [OperandStack.peek] at peeked
        split at peeked
        · next found =>
            cases peeked
            exact (List.getElem?_eq_some_iff.mp found).1
        · cases peeked
      rw [bind_apply_of_ok (total_of_ok peeked), bind_apply_of_ok (total_of_ok peeked)]
      simp only [total_bind, total_get, total_ite, total_throw, total_pure]
      rw [get_bind_apply, get_bind_apply, subtract?_of_le present, defined_some, pure_bind]
      by_cases low : value.integerPart < 1
      · rw [if_pos low, if_pos low]
      · have positive : 1 ≤ value.integerPart.toInt.toNat := by
          rw [Int64.lt_iff_toInt_lt] at low
          have one : (1 : Int64).toInt = 1 := rfl
          omega
        rw [if_neg low, if_neg low, subtract?_of_le positive, defined_some]

def stackOperation : StackOperation → Checked Fault OperandStack Unit
  | .dup => do total (OperandStack.push (← peek 0))
  | .pop => do let _ ← total OperandStack.pop
  | .clear => total OperandStack.clear
  | .swap => swap 0 1
  | .depth => do total (OperandStack.push (.int (.ofNat (← get).size)))
  | .cindex => do
      let depth ← elementDepth
      let _ ← total OperandStack.pop
      total (OperandStack.push (← peek depth))
  | .mindex => do
      let depth ← elementDepth
      let _ ← total OperandStack.pop
      total (OperandStack.push (← removeAt depth))
  | .roll => do
      total (OperandStack.require 3)
      total (OperandStack.push (← removeAt 2))

theorem stackOperation_eq (operation : StackOperation) :
    stackOperation operation = total operation.apply := by
  cases operation with
  | roll =>
      refine require_bind_eq (fun stack _ => ?_) (fun stack missing => ?_)
      · rw [removeAt_eq, StackOperation.apply, total_bind]
      · exact bind_apply_of_error (removeAt_of_missing missing)
  | _ => simp [stackOperation, StackOperation.apply, peek_eq, removeAt_eq, swap_eq, elementDepth_eq]

end Hinting.Checked
