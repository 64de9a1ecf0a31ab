import Hinting.Proofs.Memory.Invariant

/-!
Instructions that fail without a trace.

An instruction that works on memory checks all that it needs before it changes anything. What it
pushes in the end finds the room that its operands leave.
-/

namespace Hinting

/-- An operand was missing or unusable, or there was no room for the result. -/
def Fault.ConcernsData : Fault → Prop
  | .stackUnderflow _ _ => True
  | .stackOverflow _ => True
  | .invalidIndex _ _ => True
  | .divisionByZero => True
  | .uninitializedStorage _ => True
  | _ => False

/-! ## The stack -/

namespace OperandStack

theorem pushAll_apply (values : List Value) (stack : OperandStack) :
    pushAll values stack =
      if stack.size + values.length ≤ stack.maxDepth then
        .ok () { stack with values := values.reverse ++ stack.values }
      else .error (.stackOverflow stack.maxDepth) stack := by
  rw [pushAll, bind_apply, reserve]
  by_cases fits : stack.size + values.length ≤ stack.maxDepth
  · rw [if_pos fits, if_pos fits]
    rfl
  · rw [if_neg fits, if_neg fits]

theorem push_apply (value : Value) (stack : OperandStack) :
    push value stack =
      if stack.size + 1 ≤ stack.maxDepth then
        .ok () { stack with values := value :: stack.values }
      else .error (.stackOverflow stack.maxDepth) stack :=
  pushAll_apply [value] stack

/-! ### The depth limit -/

theorem maintained_fits : Maintained fun stack => stack.size ≤ stack.maxDepth where
  push value := by
    intro stack fits
    rw [push_apply]
    by_cases room : stack.size + 1 ≤ stack.maxDepth
    · rw [if_pos room]
      exact room
    · rw [if_neg room]
      exact fits
  pushAll values := by
    intro stack fits
    rw [pushAll_apply]
    by_cases room : stack.size + values.length ≤ stack.maxDepth
    · rw [if_pos room]
      simpa [stateAfter, size, Nat.add_comm] using room
    · rw [if_neg room]
      exact fits
  pop := by
    rintro ⟨values, maxDepth⟩ fits
    cases values with
    | nil => exact fits
    | cons top below => exact Nat.le_of_succ_le fits
  popTwo := by
    rintro ⟨values, maxDepth⟩ fits
    rcases values with _ | ⟨second, _ | ⟨first, below⟩⟩
    · exact fits
    · exact fits
    · exact Nat.le_of_succ_le (Nat.le_of_succ_le fits)
  replaceTop value := by
    rintro ⟨values, maxDepth⟩ fits
    cases values with
    | nil => exact fits
    | cons top below => exact fits
  removeAt depth := by
    intro stack fits
    rw [removeAt]
    split
    · exact Nat.le_trans (List.length_eraseIdx_le _ _) fits
    · exact fits
  swap left right := by
    intro stack fits
    rw [swap]
    split
    · simpa [stateAfter, size] using fits
    · exact fits
  clear := .modify fun stack _ => Nat.zero_le stack.maxDepth

/-! ### What fails -/

/-- A failure of the action concerns the data, and it leaves the stack. -/
def Refuses (action : StackAction α) : Prop :=
  ∀ stack failure after, action stack = .error failure after →
    after = stack ∧ failure.ConcernsData

theorem Refuses.raises {action : StackAction α} (refuses : Refuses action) :
    Raises Fault.ConcernsData action :=
  fun stack failure after fails => (refuses stack failure after fails).2

theorem Refuses.atomicAt {action : StackAction α} (refuses : Refuses action)
    (stack : OperandStack) : AtomicAt action stack :=
  fun failure after fails => (refuses stack failure after fails).1

theorem refuses_require (needed : Nat) : Refuses (require needed) := by
  intro stack failure after fails
  rw [require] at fails
  split at fails <;> cases fails
  exact ⟨rfl, trivial⟩

theorem refuses_pushAll (values : List Value) : Refuses (pushAll values) := by
  intro stack failure after fails
  rw [pushAll_apply] at fails
  split at fails <;> cases fails
  exact ⟨rfl, trivial⟩

theorem refuses_push (value : Value) : Refuses (push value) :=
  refuses_pushAll [value]

theorem refuses_pop : Refuses pop := by
  intro stack failure after fails
  rw [pop] at fails
  split at fails <;> cases fails
  exact ⟨rfl, trivial⟩

theorem refuses_popTwo : Refuses popTwo := by
  intro stack failure after fails
  rw [popTwo] at fails
  split at fails <;> cases fails
  exact ⟨rfl, trivial⟩

theorem refuses_peek (depth : Nat) : Refuses (peek depth) := by
  intro stack failure after fails
  rw [peek] at fails
  split at fails <;> cases fails
  exact ⟨rfl, trivial⟩

theorem refuses_replaceTop (value : Value) : Refuses (replaceTop value) := by
  intro stack failure after fails
  rw [replaceTop] at fails
  split at fails <;> cases fails
  exact ⟨rfl, trivial⟩

theorem refuses_removeAt (depth : Nat) : Refuses (removeAt depth) := by
  intro stack failure after fails
  rw [removeAt] at fails
  split at fails <;> cases fails
  exact ⟨rfl, trivial⟩

theorem refuses_swap (left right : Nat) : Refuses (swap left right) := by
  intro stack failure after fails
  rw [swap] at fails
  split at fails <;> cases fails
  exact ⟨rfl, trivial⟩

theorem raises_elementDepth : Raises Fault.ConcernsData StackOperation.elementDepth := by
  refine (refuses_peek 0).raises.bind fun value => Raises.get.bind fun stack => ?_
  dsimp only
  split
  · exact .throw trivial
  · split
    · exact .throw trivial
    · exact .pure _

theorem compositional_raises : Compositional (Raises Fault.ConcernsData) where
  pure := .pure
  divisionByZero := .throw trivial
  bind := .bind
  require needed := (refuses_require needed).raises
  pushAll values := (refuses_pushAll values).raises
  push value := (refuses_push value).raises
  pop := refuses_pop.raises
  popTwo := refuses_popTwo.raises
  peek depth := (refuses_peek depth).raises
  replaceTop value := (refuses_replaceTop value).raises
  removeAt depth := (refuses_removeAt depth).raises
  swap left right := (refuses_swap left right).raises
  elementDepth := raises_elementDepth

/-! ### What a failure leaves -/

theorem reads_require (needed : Nat) : Reads (require needed) :=
  .of_maintains fun _ => maintains_require needed

theorem reads_peek (depth : Nat) : Reads (peek depth) :=
  .of_maintains fun _ => maintains_peek depth

theorem reads_elementDepth : Reads StackOperation.elementDepth :=
  .of_maintains fun _ => maintains_elementDepth

section

variable {stack : OperandStack}

theorem succeedsAt_push (room : stack.size + 1 ≤ stack.maxDepth) (value : Value) :
    SucceedsAt (push value) stack := by
  rw [SucceedsAt, push_apply, if_pos room]
  exact ⟨_, _, rfl⟩

theorem succeedsAt_popTwo (present : 2 ≤ stack.size) : SucceedsAt popTwo stack := by
  rcases stack with ⟨values, maxDepth⟩
  rcases values with _ | ⟨second, _ | ⟨first, below⟩⟩
  · exact absurd present (by decide : ¬ 2 ≤ 0)
  · exact absurd present (by decide : ¬ 2 ≤ 1)
  · exact ⟨_, _, rfl⟩

theorem peek_apply_of_lt {depth : Nat} (inside : depth < stack.size) :
    peek depth stack = .ok (stack.values.get ⟨depth, inside⟩) stack := by
  rw [peek, List.getElem?_eq_getElem inside]
  rfl

theorem removeAt_apply_of_lt {depth : Nat} (inside : depth < stack.size) :
    removeAt depth stack = .ok (stack.values.get ⟨depth, inside⟩)
      { stack with values := stack.values.eraseIdx depth } := by
  rw [removeAt, List.getElem?_eq_getElem inside]
  rfl

/-! ### Room for results -/

theorem room_of_pop {result : Value} {after : OperandStack} (fits : stack.size ≤ stack.maxDepth)
    (ends : pop stack = .ok result after) : after.size + 1 ≤ after.maxDepth := by
  rcases stack with ⟨values, maxDepth⟩
  cases values with
  | nil => cases ends
  | cons top below =>
      cases ends
      exact fits

theorem room_of_popTwo {result : Value × Value} {after : OperandStack}
    (fits : stack.size ≤ stack.maxDepth) (ends : popTwo stack = .ok result after) :
    after.size + 1 ≤ after.maxDepth := by
  rcases stack with ⟨values, maxDepth⟩
  rcases values with _ | ⟨second, _ | ⟨first, below⟩⟩
  · cases ends
  · cases ends
  · cases ends
    exact Nat.le_of_succ_le fits

theorem room_of_removeAt {depth : Nat} {result : Value} {after : OperandStack}
    (fits : stack.size ≤ stack.maxDepth) (ends : removeAt depth stack = .ok result after) :
    after.size + 1 ≤ after.maxDepth := by
  rw [removeAt] at ends
  split at ends <;> cases ends
  next found =>
    have inside := (List.getElem?_eq_some_iff.mp found).1
    have removed : (stack.values.eraseIdx depth).length + 1 = stack.values.length := by
      rw [List.length_eraseIdx_of_lt inside]
      exact Nat.sub_add_cancel (Nat.zero_lt_of_lt inside)
    exact Nat.le_trans (Nat.le_of_eq removed) fits

end

theorem inside_of_elementDepth {stack after popped : OperandStack} {depth : Nat}
    {top : Value} (ends : StackOperation.elementDepth stack = .ok depth after)
    (pops : pop stack = .ok top popped) : depth < popped.size := by
  rcases stack with ⟨values, maxDepth⟩
  cases values with
  | nil => cases pops
  | cons number below =>
      cases pops
      have peeked : peek 0 ⟨top :: below, maxDepth⟩ = .ok top ⟨top :: below, maxDepth⟩ := rfl
      rw [StackOperation.elementDepth, bind_apply_of_ok peeked, get_bind_apply] at ends
      split at ends
      · cases ends
      · next notBelowOne =>
          split at ends
          · cases ends
          · next present =>
              cases ends
              have positive : 1 ≤ top.integerPart.toInt :=
                Int64.le_iff_toInt_le.mp (Int64.not_lt.mp notBelowOne)
              simp only [size, List.length_cons] at present ⊢
              omega

end OperandStack

open OperandStack

/-! ### Stack operations -/

section

variable {stack : OperandStack}

theorem StackOperation.atomicAt_apply (fits : stack.size ≤ stack.maxDepth)
    (operation : StackOperation) : AtomicAt operation.apply stack := by
  cases operation with
  | dup => exact (reads_peek 0).bind_atomicAt fun value _ => (refuses_push value).atomicAt stack
  | pop => exact (refuses_pop.atomicAt stack).bind fun _ _ _ => ⟨_, _, rfl⟩
  | clear => exact fun _ _ impossible => nomatch impossible
  | swap => exact (refuses_swap 0 1).atomicAt stack
  | depth => exact (refuses_push _).atomicAt stack
  | cindex =>
      apply reads_elementDepth.bind_atomicAt
      intro depth named
      apply (refuses_pop.atomicAt stack).bind
      intro _ popped pops
      have inside := inside_of_elementDepth named pops
      exact .bind (peek_apply_of_lt inside) (succeedsAt_push (room_of_pop fits pops) _)
  | mindex =>
      apply reads_elementDepth.bind_atomicAt
      intro depth named
      apply (refuses_pop.atomicAt stack).bind
      intro _ popped pops
      have inside := inside_of_elementDepth named pops
      have removed := removeAt_apply_of_lt inside
      -- The value that is moved leaves room for itself, whatever the element number left.
      have fitsPopped := Nat.le_of_succ_le (room_of_pop fits pops)
      exact .bind removed (succeedsAt_push (room_of_removeAt fitsPopped removed) _)
  | roll =>
      exact ((refuses_removeAt 2).atomicAt _).bind fun value _ removed =>
        succeedsAt_push (room_of_removeAt fits removed) value

theorem UnaryOperation.atomicAt_apply (operation : UnaryOperation) :
    AtomicAt operation.apply stack :=
  (reads_peek 0).bind_atomicAt fun _ _ => (refuses_replaceTop _).atomicAt stack

theorem BinaryOperation.atomicAt_apply (fits : stack.size ≤ stack.maxDepth)
    (operation : BinaryOperation) : AtomicAt operation.apply stack := by
  have calculated : AtomicAt
      (popTwo >>= fun operands => push (operation.onValues operands.1 operands.2)) stack :=
    (refuses_popTwo.atomicAt stack).bind fun _ _ popped =>
      succeedsAt_push (room_of_popTwo fits popped) _
  refine (reads_require 2).bind_atomicAt fun _ _ => (reads_peek 0).bind_atomicAt fun divisor _ => ?_
  split
  · exact (Reads.of_maintains fun _ => .throw _).bind_atomicAt fun _ _ => calculated
  · exact calculated

end

/-! ## Memory -/

namespace Memory

/-! ### What fails -/

theorem raises_onStack {action : StackAction α} (raises : Raises Fault.ConcernsData action) :
    Raises Fault.ConcernsData (onStack action) := by
  intro memory failure after fails
  rw [onStack] at fails
  cases acted : action memory.stack with
  | ok result stack =>
      rw [acted] at fails
      cases fails
  | error cause stack =>
      rw [acted] at fails
      cases fails
      exact raises _ _ _ acted

theorem raises_toIndex (value : Value) (kind : IndexKind) :
    Raises Fault.ConcernsData (ofExcept (value.toIndex kind) : MemoryAction UInt32) := by
  apply Raises.ofExcept
  intro failure fails
  rw [Value.toIndex] at fails
  split at fails <;> cases fails
  trivial

theorem raises_toLocation (value : Value) :
    Raises Fault.ConcernsData (ofExcept value.toLocation : MemoryAction UInt64) := by
  apply Raises.ofExcept
  intro failure fails
  rw [Value.toLocation] at fails
  split at fails <;> cases fails
  trivial

theorem raises_readStorage (location : UInt64) :
    Raises Fault.ConcernsData (readStorage location) := by
  refine Raises.get.bind fun memory => .ofExcept fun failure fails => ?_
  rw [Storage.read] at fails
  split at fails <;> cases fails
  trivial

theorem raises_getControlValue (index : UInt32) :
    Raises Fault.ConcernsData (getControlValue index) := by
  refine Raises.get.bind fun memory => .ofExcept fun failure fails => ?_
  rw [ControlValues.get] at fails
  split at fails <;> cases fails
  trivial

theorem raises_setControlValue (index : UInt32) (value : Value) :
    Raises Fault.ConcernsData (setControlValue index value) := by
  refine Raises.get.bind fun memory => .bind (.ofExcept fun failure fails => ?_) fun _ => .modify _
  rw [ControlValues.set] at fails
  split at fails <;> cases fails
  trivial

theorem compositional_raises :
    Compositional (Raises Fault.ConcernsData) (Raises Fault.ConcernsData) where
  stack := OperandStack.compositional_raises
  lift := raises_onStack
  pure := .pure
  toIndex := raises_toIndex
  toLocation := raises_toLocation
  bind := .bind
  readStorage := raises_readStorage
  writeStorage _ _ := .modify _
  getControlValue := raises_getControlValue
  setControlValue := raises_setControlValue

theorem raises_memoryAction {instruction : Instruction} {action : MemoryAction Unit}
    (acts : instruction.memoryAction? = some action) : Raises Fault.ConcernsData action :=
  compositional_raises.memoryAction acts (fun _ => .modify _)
    fun _ => Raises.get.bind fun _ => (refuses_push _).raises

/-! ### What a failure leaves -/

theorem reads_onStack {action : StackAction α} (reads : Reads action) :
    Reads (onStack action) := by
  intro memory
  have same := reads memory.stack
  rw [onStack]
  cases acted : action memory.stack with
  | ok result stack =>
      rw [acted] at same
      cases same
      rfl
  | error cause stack =>
      rw [acted] at same
      cases same
      rfl

theorem reads_readStorage (location : UInt64) : Reads (readStorage location) :=
  .of_maintains fun _ => maintains_readStorage location

theorem reads_getControlValue (index : UInt32) : Reads (getControlValue index) :=
  .of_maintains fun _ => maintains_getControlValue index

section

variable {memory : Memory}

theorem atomicAt_onStack {action : StackAction α} (atomic : AtomicAt action memory.stack) :
    AtomicAt (onStack action) memory := by
  intro failure after fails
  rw [onStack] at fails
  cases acted : action memory.stack with
  | ok result stack =>
      rw [acted] at fails
      cases fails
  | error cause stack =>
      rw [acted] at fails
      cases fails
      rw [atomic _ _ acted]

theorem succeedsAt_onStack {action : StackAction α}
    (succeeds : SucceedsAt action memory.stack) : SucceedsAt (onStack action) memory := by
  rcases succeeds with ⟨result, stack, acted⟩
  rw [SucceedsAt, onStack, acted]
  exact ⟨_, _, rfl⟩

theorem present_of_require {needed : Nat} {after : Memory}
    (ends : onStack (OperandStack.require needed) memory = .ok () after) :
    needed ≤ memory.stack.size := by
  rw [onStack, OperandStack.require] at ends
  by_cases present : needed ≤ memory.stack.size
  · exact present
  · rw [if_neg present] at ends
    cases ends

theorem atomicAt_setControlValue (index : UInt32) (value : Value) :
    AtomicAt (setControlValue index value) memory := by
  refine (Reads.of_maintains fun _ => .get).bind_atomicAt fun read _ => ?_
  refine (Reads.of_maintains fun _ => .ofExcept _).bind_atomicAt fun controlValues _ => ?_
  exact SucceedsAt.atomicAt ⟨_, _, rfl⟩

theorem stack_of_setControlValue {index : UInt32} {value : Value} {after : Memory}
    (ends : setControlValue index value memory = .ok () after) : after.stack = memory.stack := by
  have kept := @maintains_setControlValue (fun stack => stack = memory.stack) index value memory rfl
  rwa [ends] at kept

/-- The control value is set before its operands are popped, and popping does not fail. -/
theorem atomicAt_writeControlValue (convert : Value → Value) :
    AtomicAt (StorageOperation.writeControlValue convert) memory := by
  refine (reads_onStack (reads_require 2)).bind_atomicAt fun _ required => ?_
  refine (reads_onStack (reads_peek 0)).bind_atomicAt fun value _ => ?_
  refine (reads_onStack (reads_peek 1)).bind_atomicAt fun _ _ => ?_
  refine (Reads.of_maintains fun _ => .ofExcept _).bind_atomicAt fun index _ => ?_
  apply (atomicAt_setControlValue index (convert value)).bind
  intro _ after set
  have present : 2 ≤ after.stack.size := by
    rw [stack_of_setControlValue set]
    exact present_of_require required
  rcases succeedsAt_onStack (succeedsAt_popTwo present) with ⟨operands, popped, pops⟩
  exact .bind pops ⟨_, _, rfl⟩

theorem atomicAt_storageOperation (operation : StorageOperation) :
    AtomicAt operation.apply memory := by
  have reads_ofExcept : ∀ {α : Type} (outcome : Except Fault α),
      Reads (ofExcept outcome : MemoryAction α) :=
    fun outcome => .of_maintains fun _ => .ofExcept outcome
  cases operation with
  | ws =>
      refine (reads_onStack (reads_require 2)).bind_atomicAt fun _ _ => ?_
      refine (reads_onStack (reads_peek 0)).bind_atomicAt fun value _ => ?_
      refine (reads_onStack (reads_peek 1)).bind_atomicAt fun _ _ => ?_
      refine (reads_ofExcept _).bind_atomicAt fun location _ => ?_
      exact (atomicAt_onStack (refuses_popTwo.atomicAt _)).bind fun _ _ _ => ⟨_, _, rfl⟩
  | rs =>
      refine (reads_onStack (reads_peek 0)).bind_atomicAt fun _ _ => ?_
      refine (reads_ofExcept _).bind_atomicAt fun location _ => ?_
      refine (reads_readStorage location).bind_atomicAt fun value _ => ?_
      exact atomicAt_onStack ((refuses_replaceTop value).atomicAt _)
  | wcvtp => exact atomicAt_writeControlValue id
  | wcvtf => exact atomicAt_writeControlValue _
  | rcvt =>
      refine (reads_onStack (reads_peek 0)).bind_atomicAt fun _ _ => ?_
      refine (reads_ofExcept _).bind_atomicAt fun index _ => ?_
      refine (reads_getControlValue index).bind_atomicAt fun value _ => ?_
      exact atomicAt_onStack ((refuses_replaceTop value).atomicAt _)

theorem atomicAt_memoryAction (fits : memory.stack.size ≤ memory.stack.maxDepth)
    {instruction : Instruction} {action : MemoryAction Unit}
    (acts : instruction.memoryAction? = some action) : AtomicAt action memory := by
  cases instruction with
  | push constants =>
      cases acts
      exact atomicAt_onStack ((refuses_pushAll _).atomicAt _)
  | stack operation =>
      cases acts
      exact atomicAt_onStack (operation.atomicAt_apply fits)
  | unary operation =>
      cases acts
      exact atomicAt_onStack operation.atomicAt_apply
  | binary operation =>
      cases acts
      exact atomicAt_onStack (operation.atomicAt_apply fits)
  | storage operation =>
      cases acts
      exact atomicAt_storageOperation operation
  | control operation => cases acts

end

end Memory

/-! ## Instructions -/

namespace Machine

theorem execute_apply_of_memoryAction {instruction : Instruction} {action : MemoryAction Unit}
    (acts : instruction.memoryAction? = some action)
    (call : UInt32 → Nat → MachineAction Unit) (rest : Program) (machine : Machine) :
    execute call rest instruction machine =
      match action machine.memory with
      | .ok _ memory => .ok 0 { machine with memory }
      | .error cause memory => .error { cause } { machine with memory } := by
  have executes : execute call rest instruction = (do onMemory action; return 0) := by
    cases instruction <;> cases acts <;> rfl
  rw [executes, bind_apply, onMemory]
  cases action machine.memory with
  | ok result memory => rfl
  | error cause memory => rfl

/-- An instruction that is no control instruction leaves everything as it was when it fails, and a
stack within its limit when it succeeds. -/
theorem execute_atomic {instruction : Instruction}
    (isData : ∀ operation, instruction ≠ .control operation)
    (call : UInt32 → Nat → MachineAction Unit) (rest : Program) {machine : Machine}
    (fits : machine.memory.stack.size ≤ machine.memory.stack.maxDepth) :
    (∀ failure after, execute call rest instruction machine = .error failure after →
      after = machine ∧ failure.trail = [] ∧ failure.cause.ConcernsData) ∧
    ∀ pass after, execute call rest instruction machine = .ok pass after →
      after.memory.stack.size ≤ after.memory.stack.maxDepth ∧
        after.memory.stack.maxDepth = machine.memory.stack.maxDepth := by
  obtain ⟨action, acts⟩ : ∃ action, instruction.memoryAction? = some action := by
    cases instruction with
    | control operation => exact absurd rfl (isData operation)
    | _ => exact ⟨_, rfl⟩
  have maintainsFits := (Memory.maintained_stack maintained_fits).instruction acts
  have maintainsDepth := (Memory.maintained_stack
    (maintained_maxDepth machine.memory.stack.maxDepth)).instruction acts
  have stillFits := maintainsFits machine.memory fits
  have sameDepth := maintainsDepth machine.memory rfl
  rw [execute_apply_of_memoryAction acts]
  cases acted : action machine.memory with
  | ok result memory =>
      rw [acted] at stillFits sameDepth
      constructor
      · intro failure after impossible
        cases impossible
      · intro pass after ends
        cases ends
        exact ⟨stillFits, sameDepth⟩
  | error cause memory =>
      constructor
      · intro failure after ends
        cases ends
        rw [Memory.atomicAt_memoryAction fits acts cause memory acted]
        exact ⟨rfl, rfl, Memory.raises_memoryAction acts _ _ _ acted⟩
      · intro pass after impossible
        cases impossible

/-- A copy takes the room of the element number on a full stack. A control value table that is empty
refuses every index, and the operands stay. -/
theorem execute_atomic_full :
    let call : UInt32 → Nat → MachineAction Unit := fun _ _ => pure ()
    let machine : Machine :=
      { new {} with memory := { stack := ⟨[.int 2, .int 8, .int 9], 3⟩ } }
    (∃ after, execute call [] (.stack .cindex) machine = .ok 0 after ∧
      after.memory.stack.values = [.int 9, .int 8, .int 9] ∧
      after.memory.stack.size ≤ after.memory.stack.maxDepth ∧
      after.memory.stack.maxDepth = 3) ∧
    ∃ after, execute call [] (.storage .wcvtp) machine =
        .error { cause := .invalidIndex .controlValue 8 } after ∧
      after = machine := by
  intro call machine
  have fits : machine.memory.stack.size ≤ machine.memory.stack.maxDepth := by decide
  have copies : ∀ operation, Instruction.stack .cindex ≠ .control operation :=
    fun _ impossible => nomatch impossible
  have writes : ∀ operation, Instruction.storage .wcvtp ≠ .control operation :=
    fun _ impossible => nomatch impossible
  have copied := (execute_atomic copies call [] fits).2 0 _ rfl
  have refused := (execute_atomic writes call [] fits).1 { cause := .invalidIndex .controlValue 8 }
    _ rfl
  exact ⟨⟨_, rfl, rfl, copied⟩, ⟨_, rfl, refused.1⟩⟩

end Machine

end Hinting
