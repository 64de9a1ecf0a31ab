import Hinting.Proofs.Memory.Composition

/-!
What lies at the bottom of the stack.

An operation that succeeds has found all its operands above the values at the bottom. It does the
same whatever these are, and leaves them there. CLEAR and DEPTH are the exceptions: they are about
the stack as a whole.
-/

namespace Hinting

namespace OperandStack

/-- The stack with other values at its bottom, which are ordered from the top down as well, and with
room for them. -/
def above (below : List Value) (stack : OperandStack) : OperandStack where
  values := stack.values ++ below
  maxDepth := stack.maxDepth + below.length

section

variable {below : List Value} {stack : OperandStack}

theorem size_above : (stack.above below).size = stack.size + below.length := by
  simp [above, size]

theorem getElem?_above {depth : Nat} {value : Value}
    (found : stack.values[depth]? = some value) :
    (stack.above below).values[depth]? = some value := by
  have inside := (List.getElem?_eq_some_iff.mp found).1
  rw [above, List.getElem?_append_left inside, found]

end

/-! ## Stack operations -/

section

variable {below : List Value}

theorem commutes_require (needed : Nat) : CommutesWith (above below) (require needed) := by
  intro stack result after ends
  rw [require] at ends ⊢
  split at ends
  · next present =>
      cases ends
      rw [size_above, if_pos (by omega)]
  · cases ends

theorem commutes_reserve (extra : Nat) : CommutesWith (above below) (reserve extra) := by
  intro stack result after ends
  rw [reserve] at ends ⊢
  split at ends
  · next fits =>
      cases ends
      rw [size_above, above, if_pos (by dsimp only; omega)]
  · cases ends

theorem commutes_pushAll (values : List Value) : CommutesWith (above below) (pushAll values) :=
  (commutes_reserve _).bind fun _ => .modify fun stack => by simp [above]

theorem commutes_push (value : Value) : CommutesWith (above below) (push value) :=
  (commutes_reserve _).bind fun _ => .modify fun _ => rfl

theorem commutes_pop : CommutesWith (above below) pop := by
  rintro ⟨values, maxDepth⟩ result after ends
  cases values with
  | nil => cases ends
  | cons top others =>
      cases ends
      rfl

theorem commutes_popTwo : CommutesWith (above below) popTwo := by
  rintro ⟨values, maxDepth⟩ result after ends
  rcases values with _ | ⟨top, _ | ⟨next, others⟩⟩
  · cases ends
  · cases ends
  · cases ends
    rfl

theorem commutes_peek (depth : Nat) : CommutesWith (above below) (peek depth) := by
  intro stack result after ends
  rw [peek] at ends ⊢
  cases found : stack.values[depth]? with
  | none =>
      rw [found] at ends
      cases ends
  | some value =>
      rw [found] at ends
      cases ends
      rw [getElem?_above found]

theorem commutes_replaceTop (value : Value) :
    CommutesWith (above below) (replaceTop value) := by
  rintro ⟨values, maxDepth⟩ result after ends
  cases values with
  | nil => cases ends
  | cons top others =>
      cases ends
      rfl

theorem commutes_removeAt (depth : Nat) : CommutesWith (above below) (removeAt depth) := by
  intro stack result after ends
  rw [removeAt] at ends ⊢
  cases found : stack.values[depth]? with
  | none =>
      rw [found] at ends
      cases ends
  | some value =>
      rw [found] at ends
      cases ends
      have inside := (List.getElem?_eq_some_iff.mp found).1
      rw [getElem?_above found]
      simp [above, List.eraseIdx_append_of_lt_length inside]

theorem commutes_swap (left right : Nat) : CommutesWith (above below) (swap left right) := by
  intro stack result after ends
  rw [swap] at ends ⊢
  cases foundLeft : stack.values[left]? with
  | none =>
      rw [foundLeft] at ends
      cases ends
  | some leftValue =>
      cases foundRight : stack.values[right]? with
      | none =>
          rw [foundLeft, foundRight] at ends
          cases ends
      | some rightValue =>
          rw [foundLeft, foundRight] at ends
          cases ends
          have insideLeft := (List.getElem?_eq_some_iff.mp foundLeft).1
          have insideRight := (List.getElem?_eq_some_iff.mp foundRight).1
          rw [getElem?_above foundLeft, getElem?_above foundRight]
          simp [above, List.set_append_left, insideLeft, insideRight]

theorem commutes_elementDepth :
    CommutesWith (above below) StackOperation.elementDepth := by
  apply (commutes_peek 0).bind
  intro value stack result after ends
  rw [get_bind_apply] at ends ⊢
  rw [size_above]
  split at ends
  · cases ends
  · next positive =>
      split at ends
      · cases ends
      · next present =>
          cases ends
          rw [if_neg positive, if_neg (by omega)]
          rfl

theorem compositional_commutes : Compositional (CommutesWith (above below)) where
  pure := .pure
  divisionByZero := .throw _
  bind := .bind
  require := commutes_require
  pushAll := commutes_pushAll
  push := commutes_push
  pop := commutes_pop
  popTwo := commutes_popTwo
  peek := commutes_peek
  replaceTop := commutes_replaceTop
  removeAt := commutes_removeAt
  swap := commutes_swap
  elementDepth := commutes_elementDepth

end

end OperandStack

/-! ## Memory -/

namespace Memory

def above (below : List Value) (memory : Memory) : Memory :=
  { memory with stack := memory.stack.above below }

section

variable {below : List Value}

theorem commutes_onStack {action : StackAction α}
    (commutes : CommutesWith (OperandStack.above below) action) :
    CommutesWith (above below) (onStack action) := by
  intro memory result after ends
  rw [onStack] at ends ⊢
  cases acted : action memory.stack with
  | error fault stack =>
      rw [acted] at ends
      cases ends
  | ok value stack =>
      rw [acted] at ends
      cases ends
      rw [above, commutes _ _ _ acted]
      rfl

theorem commutes_writeStorage (location : UInt64) (value : Value) :
    CommutesWith (above below) (writeStorage location value) :=
  .modify fun _ => rfl

theorem commutes_readStorage (location : UInt64) :
    CommutesWith (above below) (readStorage location) :=
  .get_bind (fun _ => rfl) fun _ => .ofExcept _

theorem commutes_getControlValue (index : UInt32) :
    CommutesWith (above below) (getControlValue index) :=
  .get_bind (fun _ => rfl) fun _ => .ofExcept _

theorem commutes_setControlValue (index : UInt32) (value : Value) :
    CommutesWith (above below) (setControlValue index value) :=
  .get_bind (fun _ => rfl) fun _ => (CommutesWith.ofExcept _).bind fun _ => .modify fun _ => rfl

theorem compositional_commutes :
    Compositional (CommutesWith (OperandStack.above below)) (CommutesWith (above below)) where
  stack := OperandStack.compositional_commutes
  lift := commutes_onStack
  pure := .pure
  toIndex _ _ := .ofExcept _
  toLocation _ := .ofExcept _
  bind := .bind
  readStorage := commutes_readStorage
  writeStorage := commutes_writeStorage
  getControlValue := commutes_getControlValue
  setControlValue := commutes_setControlValue

end

end Memory

/-! ## Instructions -/

namespace Instruction

def isLocal : Instruction → Bool
  | .stack .clear => false
  | .stack .depth => false
  | _ => true

theorem commutes_memoryAction {below : List Value} {instruction : Instruction}
    {action : MemoryAction Unit} (isLocal : instruction.isLocal = true)
    (acts : instruction.memoryAction? = some action) :
    CommutesWith (Memory.above below) action := by
  apply Memory.compositional_commutes.memoryAction acts
  · rintro rfl
    cases isLocal
  · rintro rfl
    cases isLocal

end Instruction

end Hinting
