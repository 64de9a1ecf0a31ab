import Hinting.Proofs.Memory.Composition

/-!
Room on the stack.

The depth limit is consulted where values are pushed, and nowhere else. An operation that is not
stopped there does the same on a stack with more room.
-/

namespace Hinting

/-- A depth limit, of the stack or of calls, was in the way. -/
def Fault.ExceedsDepth : Fault → Prop
  | .stackOverflow _ => True
  | .callDepthExceeded _ => True
  | _ => False

namespace OperandStack

def deepened (more : Nat) (stack : OperandStack) : OperandStack :=
  { stack with maxDepth := stack.maxDepth + more }

/-- Room for more values makes no difference to the action, unless it overflows the stack. -/
def Deepens (more : Nat) (action : StackAction α) : Prop :=
  CommutesUnless Fault.ExceedsDepth (deepened more) action

/-! ## Stack operations -/

section

variable {more : Nat}

theorem deepens_require (needed : Nat) : Deepens more (require needed) := by
  intro stack
  apply Or.inl
  by_cases present : needed ≤ stack.size
  · have presentAfter : needed ≤ (stack.deepened more).size := present
    rw [require, require, if_pos present, if_pos presentAfter]
    rfl
  · have missingAfter : ¬ needed ≤ (stack.deepened more).size := present
    rw [require, require, if_neg present, if_neg missingAfter]
    rfl

/-- This is where the limit is consulted. -/
theorem deepens_reserve (extra : Nat) : Deepens more (reserve extra) := by
  intro stack
  by_cases fits : stack.size + extra ≤ stack.maxDepth
  · have fitsAfter : (stack.deepened more).size + extra ≤ (stack.deepened more).maxDepth :=
      Nat.le_trans fits (Nat.le_add_right _ _)
    rw [reserve, reserve, if_pos fits, if_pos fitsAfter]
    exact .inl rfl
  · refine .inr ⟨.stackOverflow stack.maxDepth, stack, ?_, trivial⟩
    rw [reserve, if_neg fits]

theorem deepens_pushAll (values : List Value) : Deepens more (pushAll values) :=
  (deepens_reserve _).bind fun _ => .modify fun _ => rfl

theorem deepens_push (value : Value) : Deepens more (push value) :=
  (deepens_reserve _).bind fun _ => .modify fun _ => rfl

theorem deepens_pop : Deepens more pop := by
  rintro ⟨values, maxDepth⟩
  cases values with
  | nil => exact .inl rfl
  | cons top below => exact .inl rfl

theorem deepens_popTwo : Deepens more popTwo := by
  rintro ⟨values, maxDepth⟩
  rcases values with _ | ⟨second, _ | ⟨first, below⟩⟩
  · exact .inl rfl
  · exact .inl rfl
  · exact .inl rfl

theorem deepens_peek (depth : Nat) : Deepens more (peek depth) := by
  rintro ⟨values, maxDepth⟩
  apply Or.inl
  dsimp only [peek, deepened]
  cases values[depth]? with
  | none => rfl
  | some value => rfl

theorem deepens_replaceTop (value : Value) : Deepens more (replaceTop value) := by
  rintro ⟨values, maxDepth⟩
  cases values with
  | nil => exact .inl rfl
  | cons top below => exact .inl rfl

theorem deepens_removeAt (depth : Nat) : Deepens more (removeAt depth) := by
  rintro ⟨values, maxDepth⟩
  apply Or.inl
  dsimp only [removeAt, deepened]
  cases values[depth]? with
  | none => rfl
  | some value => rfl

theorem deepens_swap (left right : Nat) : Deepens more (swap left right) := by
  rintro ⟨values, maxDepth⟩
  apply Or.inl
  dsimp only [swap, deepened]
  cases values[left]? with
  | none => rfl
  | some leftValue =>
      cases values[right]? with
      | none => rfl
      | some rightValue => rfl

theorem deepens_elementDepth : Deepens more StackOperation.elementDepth := by
  refine (deepens_peek 0).bind fun value => .get_bind (fun _ => rfl) fun stack => ?_
  dsimp only
  split
  · exact .throw _
  · split
    · exact .throw _
    · exact .pure _

theorem compositional_deepens : Compositional (Deepens more) where
  pure := .pure
  divisionByZero := .throw _
  bind := .bind
  require := deepens_require
  pushAll := deepens_pushAll
  push := deepens_push
  pop := deepens_pop
  popTwo := deepens_popTwo
  peek := deepens_peek
  replaceTop := deepens_replaceTop
  removeAt := deepens_removeAt
  swap := deepens_swap
  elementDepth := deepens_elementDepth

end

end OperandStack

/-! ## Memory -/

namespace Memory

def deepened (more : Nat) (memory : Memory) : Memory :=
  { memory with stack := memory.stack.deepened more }

def Deepens (more : Nat) (action : MemoryAction α) : Prop :=
  CommutesUnless Fault.ExceedsDepth (deepened more) action

section

variable {more : Nat}

theorem deepens_onStack {action : StackAction α} (deepens : OperandStack.Deepens more action) :
    Deepens more (onStack action) := by
  intro memory
  unfold onStack
  rcases deepens memory.stack with same | ⟨cause, stack, fails, excuse⟩
  · have sameStack : (memory.deepened more).stack = memory.stack.deepened more := rfl
    rw [sameStack, same]
    cases action memory.stack with
    | ok result stack => exact .inl rfl
    | error cause stack => exact .inl rfl
  · rw [fails]
    exact .inr ⟨cause, _, rfl, excuse⟩

theorem compositional_deepens : Compositional (OperandStack.Deepens more) (Deepens more) where
  stack := OperandStack.compositional_deepens
  lift := deepens_onStack
  pure := .pure
  toIndex _ _ := .ofExcept _
  toLocation _ := .ofExcept _
  bind := .bind
  readStorage _ := .get_bind (fun _ => rfl) fun _ => .ofExcept _
  writeStorage _ _ := .modify fun _ => rfl
  getControlValue _ := .get_bind (fun _ => rfl) fun _ => .ofExcept _
  setControlValue _ _ :=
    .get_bind (fun _ => rfl) fun _ => (CommutesUnless.ofExcept _).bind fun _ => .modify fun _ => rfl

theorem deepens_memoryAction {instruction : Instruction} {action : MemoryAction Unit}
    (acts : instruction.memoryAction? = some action) : Deepens more action :=
  compositional_deepens.memoryAction acts (fun _ => .modify fun _ => rfl)
    fun _ => .get_bind (fun _ => rfl) fun _ => OperandStack.deepens_push _

end

end Memory

end Hinting
