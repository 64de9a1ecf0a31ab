import Hinting.Proofs.Machine.Operands
import Hinting.Proofs.Stepping.Transition

/-!
What a small step does to the functions and to the open definition.

FDEF opens a definition, the instructions behind it are recorded one by one, and ENDF adds them to
the functions. Whatever ends a run before that adds nothing.
-/

namespace Hinting

theorem FunctionTable.define_of_contains {table : FunctionTable} {id : UInt32}
    (known : table.contains id = true) (body : Program) : table.define id body = table := by
  refine ext_get? fun other => ?_
  by_cases same : id = other
  · subst same
    have found : ∃ held, table.get? id = some held :=
      Option.isSome_iff_exists.mp (by rwa [get?, ← Std.ExtTreeMap.contains_eq_isSome_getElem?])
    rcases found with ⟨held, found⟩
    rw [get?_define_same, found, Option.getD_some]
  · exact get?_define_other table body same

namespace Machine

/-! ## Instructions -/

theorem carryOut_beginFunction (rest : Program) (machine : Machine) :
    (∃ top below id memory, machine.memory.stack.values = top :: below ∧
        top.toIndex .function = .ok id ∧
        carryOut rest (.control .beginFunction) machine =
          .ok (.goOn 0) { machine with memory, capture := some { id } }) ∨
      ∃ failure after, carryOut rest (.control .beginFunction) machine = .error failure after ∧
        after.functions = machine.functions := by
  cases named : functionId machine with
  | error failure after =>
      have same := SameControl.compositional.functionId machine (.refl machine)
      rw [named] at same
      have fails : control (fun _ _ => pure ()) rest .beginFunction machine =
          .error failure after :=
        bind_apply_of_error named
      exact .inr ⟨failure, after, bind_apply_of_error fails, same.functions⟩
  | ok id after =>
      rcases eq_of_functionId named with ⟨rfl, top, below, held, index⟩
      have opens : control (fun _ _ => pure ()) rest .beginFunction after = .ok 0 _ :=
        (bind_apply_of_ok named).trans (bind_apply_of_ok (onStack_pop held))
      exact .inl ⟨top, below, id, _, held, index, bind_apply_of_ok opens⟩

/-- What a fetched instruction does about definitions. -/
inductive Writes (instruction : Instruction) (machine : Machine) : Outcome Effect → Prop
  | fails (failure : Failure) (after : Machine) (functions : after.functions = machine.functions) :
      Writes instruction machine (.error failure after)
  | stays (effect : Effect) (after : Machine) (closed : machine.capture = none)
      (stillClosed : after.capture = none) (functions : after.functions = machine.functions) :
      Writes instruction machine (.ok effect after)
  | opens (top : Value) (below : List Value) (id : UInt32) (after : Machine)
      (fetched : instruction = .control .beginFunction) (closed : machine.capture = none)
      (held : machine.memory.stack.values = top :: below) (index : top.toIndex .function = .ok id)
      (opened : after.capture = some { id }) (functions : after.functions = machine.functions) :
      Writes instruction machine (.ok (.goOn 0) after)
  | records (capture : Capture) (after : Machine) (opened : machine.capture = some capture)
      (plain : instruction.delimitsFunction = false)
      (recorded : after.capture =
        some { capture with recorded := instruction :: capture.recorded })
      (functions : after.functions = machine.functions) :
      Writes instruction machine (.ok (.goOn 0) after)
  | closes (capture : Capture) (after : Machine) (fetched : instruction = .control .endFunction)
      (opened : machine.capture = some capture) (closed : after.capture = none)
      (functions : after.functions =
        machine.functions.define capture.id capture.recorded.reverse) :
      Writes instruction machine (.ok (.goOn 0) after)

theorem Writes.of_same {instruction : Instruction} {machine middle : Machine}
    {outcome : Outcome Effect} (writes : Writes instruction middle outcome)
    (same : SameControl machine middle) (memory : middle.memory = machine.memory) :
    Writes instruction machine outcome := by
  cases writes with
  | fails failure after functions => exact .fails failure after (functions.trans same.functions)
  | stays effect after closed stillClosed functions =>
      exact .stays effect after (same.capture.symm.trans closed) stillClosed
        (functions.trans same.functions)
  | opens top below id after fetched closed held index opened functions =>
      rw [memory] at held
      exact .opens top below id after fetched (same.capture.symm.trans closed) held index opened
        (functions.trans same.functions)
  | records capture after opened plain recorded functions =>
      exact .records capture after (same.capture.symm.trans opened) plain recorded
        (functions.trans same.functions)
  | closes capture after fetched opened closed functions =>
      rw [same.functions] at functions
      exact .closes capture after fetched (same.capture.symm.trans opened) closed functions

section

variable {index : Nat} {instruction : Instruction} {rest : Program} {machine : Machine}
  {capture : Capture}

theorem writes_endFunction (opened : machine.capture = some capture) :
    Writes (.control .endFunction) machine
      ((do endFunction capture; return .goOn 0 : MachineAction Effect) machine) := by
  have ended : ∃ journal, endFunction capture machine = .ok () { machine with
      capture := none
      functions := machine.functions.define capture.id capture.recorded.reverse
      journal } := by
    rw [endFunction, get_bind_apply]
    split
    · next known =>
        rw [FunctionTable.define_of_contains known]
        exact ⟨_, rfl⟩
    · exact ⟨_, rfl⟩
  rcases ended with ⟨journal, ended⟩
  rw [bind_apply_of_ok ended]
  exact .closes capture _ rfl opened rfl rfl

theorem writes_record (opened : machine.capture = some capture) :
    Writes instruction machine
      ((do record capture instruction; return .goOn 0 : MachineAction Effect) machine) := by
  have plain : instruction.delimitsFunction = false →
      Writes instruction machine
        ((do
          modify fun machine : Machine => { machine with
            capture := some { capture with recorded := instruction :: capture.recorded } }
          return .goOn 0 : MachineAction Effect) machine) :=
    fun plain => .records capture _ opened plain rfl rfl
  cases instruction with
  | control operation =>
      cases operation with
      | beginFunction => exact .fails _ _ rfl
      | endFunction => exact writes_endFunction opened
      | _ => exact plain rfl
  | _ => exact plain rfl

theorem writes_carryOut (closed : machine.capture = none) :
    Writes instruction machine
      (within (.instruction instruction.mnemonic index) (carryOut rest instruction) machine) := by
  by_cases opens : instruction = .control .beginFunction
  · subst opens
    rcases carryOut_beginFunction rest machine with
      ⟨top, below, id, memory, held, named, ends⟩ | ⟨failure, after, ends, functions⟩
    · rw [within_apply_of_ok _ ends]
      exact .opens top below id _ rfl closed held named rfl rfl
    · rw [within_apply_of_error _ ends]
      exact .fails _ after functions
  · have same := SameControl.carryOut rest opens machine (.refl machine)
    cases ends : carryOut rest instruction machine with
    | ok effect after =>
        rw [ends] at same
        rw [within_apply_of_ok _ ends]
        exact .stays effect after closed (same.capture.trans closed) same.functions
    | error failure after =>
        rw [ends] at same
        rw [within_apply_of_error _ ends]
        exact .fails _ after same.functions

theorem writes_attempt (index : Nat) (instruction : Instruction) (rest : Program)
    (machine : Machine) : Writes instruction machine (attempt index instruction rest machine) := by
  rw [attempt, get_bind_apply]
  cases captured : machine.capture with
  | some capture => exact writes_record captured
  | none =>
      have closed : { machine with
          journal := .executing index instruction machine.memory.stack.size :: machine.journal
        }.capture = none := captured
      exact (writes_carryOut closed).of_same ⟨rfl, rfl, rfl, rfl, rfl, rfl, rfl⟩ rfl

theorem writes_fetch (index : Nat) (instruction : Instruction) (rest : Program)
    (machine : Machine) : Writes instruction machine (fetch index instruction rest machine) := by
  have same := sameControl_tick machine
  have memory := memory_tick machine
  rw [fetch, bind_apply]
  cases ticked : tick machine with
  | error failure after =>
      rw [ticked] at same
      exact .fails failure after same.functions
  | ok result after =>
      rw [ticked] at same memory
      exact (writes_attempt index instruction rest after).of_same same memory

end

/-! ## Calls and ends of programs -/

structure SameDefinitions (before after : Machine) : Prop where
  functions : after.functions = before.functions
  capture : after.capture = before.capture

theorem SameDefinitions.ignoresNesting {first : Machine} :
    IgnoresNesting (SameDefinitions first) where
  nesting _ _ _ _ same := { same with }
  load _ same := { same with }

theorem functions_fail (purpose : Purpose) (callers : List Caller) (failure : Failure)
    (machine : Machine) :
    (Outcome.machine (fail purpose callers failure machine)).functions = machine.functions := by
  refine holds_fail (fun later => later.functions = machine.functions)
    (fun purpose later same => ?_) purpose callers failure rfl
  cases purpose with
  | _ => exact same

/-! ## Steps -/

/-- What a small step does about definitions. -/
inductive Registers (active : Activation) (callers : List Caller) (machine : Machine) :
    Progress → Prop
  | ends (outcome : Outcome Unit)
      (functions : (Outcome.machine outcome).functions = machine.functions) :
      Registers active callers machine (.ended outcome)
  | stays (other : Activation) (others : List Caller) (after : Machine)
      (closed : machine.capture = none) (stillClosed : after.capture = none)
      (functions : after.functions = machine.functions) :
      Registers active callers machine (.running other others after)
  | opens (top : Value) (below : List Value) (id : UInt32) (after : Machine)
      (fetched : active.program[active.index]? = some (.control .beginFunction))
      (closed : machine.capture = none)
      (held : machine.memory.stack.values = top :: below) (index : top.toIndex .function = .ok id)
      (opened : after.capture = some { id }) (functions : after.functions = machine.functions) :
      Registers active callers machine
        (.running { active with index := active.index + 1 } callers after)
  | records (instruction : Instruction) (capture : Capture) (after : Machine)
      (fetched : active.program[active.index]? = some instruction)
      (opened : machine.capture = some capture) (plain : instruction.delimitsFunction = false)
      (recorded : after.capture =
        some { capture with recorded := instruction :: capture.recorded })
      (functions : after.functions = machine.functions) :
      Registers active callers machine
        (.running { active with index := active.index + 1 } callers after)
  | closes (capture : Capture) (after : Machine)
      (fetched : active.program[active.index]? = some (.control .endFunction))
      (opened : machine.capture = some capture) (closed : after.capture = none)
      (functions : after.functions =
        machine.functions.define capture.id capture.recorded.reverse) :
      Registers active callers machine
        (.running { active with index := active.index + 1 } callers after)

section

variable {active : Activation} {callers : List Caller} {machine middle : Machine}

theorem Registers.fails (purpose : Purpose) (others : List Caller) (failure : Failure)
    (functions : middle.functions = machine.functions) :
    Registers active callers machine (.ended (fail purpose others failure middle)) :=
  .ends _ ((functions_fail purpose others failure middle).trans functions)

theorem Registers.awaits {caller : Caller} {others : List Caller} {outcome : Outcome Activation}
    (closed : machine.capture = none) (same : SameDefinitions machine (stateAfter outcome)) :
    Registers active callers machine (await caller others outcome) := by
  cases outcome with
  | ok entered after =>
      exact .stays entered (caller :: others) after closed (same.capture.trans closed)
        same.functions
  | error failure after => exact .fails _ _ _ same.functions

theorem registers_fetch (site : Context) {instruction : Instruction}
    (fetched : active.program[active.index]? = some instruction) :
    Registers active callers machine
      (proceed active callers site
        (fetch active.index instruction (active.program.drop (active.index + 1)) machine)) := by
  have writes := writes_fetch active.index instruction (active.program.drop (active.index + 1))
    machine
  generalize fetch active.index instruction _ machine = outcome at writes
  cases writes with
  | fails failure after functions => exact .fails _ _ _ functions
  | stays effect after closed stillClosed functions =>
      cases effect with
      | goOn pass => exact .stays _ _ _ closed stillClosed functions
      | call invocation =>
          exact .awaits closed (SameDefinitions.ignoresNesting.invoke invocation after
            ⟨functions, stillClosed.trans closed.symm⟩)
  | opens top below id after begins closed held index opened functions =>
      rw [begins] at fetched
      exact .opens top below id after fetched closed held index opened functions
  | records capture after opened plain recorded functions =>
      exact .records instruction capture after fetched opened plain recorded functions
  | closes capture after ends opened closed functions =>
      rw [ends] at fetched
      exact .closes capture after fetched opened closed functions

theorem registers_finishBody {id : UInt32} {more : Nat} {body : Program}
    (closed : machine.capture = none) :
    Registers active callers machine (finishBody id more body callers machine) := by
  cases more with
  | zero =>
      cases callers with
      | nil => exact .ends _ rfl
      | cons caller others => exact .stays _ _ _ closed closed rfl
  | succ more =>
      have same := sameControl_tick machine
      rw [finishBody]
      cases ticked : tick machine with
      | ok result after =>
          rw [ticked] at same
          exact .stays _ _ _ closed (same.capture.trans closed) same.functions
      | error failure after =>
          rw [ticked] at same
          exact .fails _ _ _ same.functions

theorem registers_succeed (closed : machine.capture = none) (purpose : Purpose) :
    Registers active callers machine (succeed purpose callers machine) := by
  unfold succeed
  split
  · exact .awaits closed (SameDefinitions.ignoresNesting.enterDefined _ _ ⟨rfl, rfl⟩)
  · exact .ends _ rfl
  · exact .ends _ rfl

theorem registers_finishWhole (purpose : Purpose) :
    Registers active callers machine (finishWhole purpose callers machine) := by
  rw [finishWhole]
  cases captured : machine.capture with
  | some capture => exact .fails _ _ _ rfl
  | none => exact registers_succeed captured purpose

/-- A step is one of the listed ones, as long as no definition is open in a function body. -/
theorem registers (closedBody : active.purpose.isFunction = true → machine.capture = none) :
    Registers active callers machine (advance active callers machine) := by
  rw [advance]
  cases fetched : active.program[active.index]? with
  | none =>
      rw [finish]
      cases purpose : active.purpose with
      | function id more => exact registers_finishBody (closedBody (by rw [purpose]; rfl))
      | _ => exact registers_finishWhole _
  | some instruction => exact registers_fetch _ fetched

end

end Machine

end Hinting
