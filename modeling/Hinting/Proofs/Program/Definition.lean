import Hinting.Proofs.Machine.Operands
import Hinting.Proofs.Program.Sequence

/-!
Definitions as parts of a program.

From an FDEF to its ENDF nothing is carried out, whatever the instructions between them are. They
are recorded, and the program goes on as if the function had been there from the start.
-/

namespace Hinting.Machine

/-! ## Recording -/

/-- The machine in an open definition, after a number of steps. -/
def recording (machine : Machine) (capture : Capture) (steps : Nat) : Machine :=
  { machine with capture := some capture, steps }

section

variable {call : UInt32 → Nat → MachineAction Unit} {machine : Machine}

theorem step_recording (unlimited : machine.limits.maxSteps = none) (capture : Capture)
    (steps index : Nat) (instruction : Instruction) (rest : Program) :
    step call index instruction rest (machine.recording capture steps) =
      (do record capture instruction; return 0) (machine.recording capture (steps + 1)) := by
  have ticked : tick (machine.recording capture steps) =
      .ok () (machine.recording capture (steps + 1)) := tick_unlimited unlimited
  rw [step, bind_apply_of_ok ticked, get_bind_apply]
  rfl

theorem record_apply {instruction : Instruction} (plain : instruction.delimitsFunction = false)
    (capture : Capture) (steps : Nat) :
    record capture instruction (machine.recording capture steps) =
      .ok ⟨⟩ (machine.recording
        { capture with recorded := instruction :: capture.recorded } steps) := by
  cases instruction with
  | control operation =>
      cases operation with
      | beginFunction => cases plain
      | endFunction => cases plain
      | _ => rfl
  | _ => rfl

theorem runFrom_recording (unlimited : machine.limits.maxSteps = none) {body : Program}
    (definesNothing : body.DefinesNothing) (capture : Capture) (steps index : Nat)
    (later : Program) :
    runFrom call index 0 (body ++ later) (machine.recording capture steps) =
      runFrom call (index + body.length) 0 later (machine.recording
        { capture with recorded := body.reverse ++ capture.recorded } (steps + body.length)) := by
  -- What has been recorded so far is any list, since every instruction makes it longer.
  induction body generalizing index capture steps with
  | nil => rfl
  | cons instruction body induction =>
      rcases Program.definesNothing_cons.mp definesNothing with ⟨plain, definesNothing⟩
      have stepped : step call index instruction (body ++ later)
          (machine.recording capture steps) = .ok 0 (machine.recording
            { capture with recorded := instruction :: capture.recorded } (steps + 1)) := by
        rw [step_recording unlimited, bind_apply_of_ok (record_apply plain capture _)]
        rfl
      rw [List.cons_append, runFrom, bind_apply_of_ok stepped, induction definesNothing]
      rw [List.length_cons, List.reverse_cons, List.append_assoc, List.singleton_append]
      rw [Nat.add_assoc, Nat.add_assoc, Nat.add_comm 1]

end

/-! ## The ends of a definition -/

/-- The machine with a function. A body that the function has already is kept. -/
def defining (machine : Machine) (id : UInt32) (body : Program) : Machine :=
  { machine with
    functions :=
      if machine.functions.contains id then machine.functions
      else machine.functions.define id body }

section

variable {call : UInt32 → Nat → MachineAction Unit} {machine popped : Machine}
  {idValue : Value} {id : UInt32}

theorem step_beginFunction (pops : onStack OperandStack.pop machine = .ok idValue popped)
    (unlimited : machine.limits.maxSteps = none) (closed : machine.capture = none)
    (index : idValue.toIndex .function = .ok id) (rest : Program) :
    ∃ base, step call 0 (.control .beginFunction) rest machine =
        .ok 0 (base.recording { id } (machine.steps + 1)) ∧ SameState base popped := by
  have same := (SameState.fetched 0 (.control .beginFunction) machine).onMemory pops
  have top : (machine.fetched 0 (.control .beginFunction)).memory.stack.values[0]? =
      some idValue := by
    change machine.memory.stack.values[0]? = some idValue
    rw [values_of_pop pops]
    rfl
  refine ⟨_, ?_, same.2⟩
  rw [step_unlimited unlimited closed]
  apply within_apply_of_ok _
  exact (bind_apply_of_ok (functionId_apply top index)).trans (bind_apply_of_ok same.1)

theorem step_endFunction (unlimited : machine.limits.maxSteps = none) (capture : Capture)
    (steps index : Nat) (rest : Program) :
    ∃ after, step call index (.control .endFunction) rest (machine.recording capture steps) =
        .ok 0 after ∧
      SameState after { machine.defining capture.id capture.recorded.reverse with
        capture := none } ∧
      after.steps = steps + 1 := by
  have sameFunctions : (machine.recording capture (steps + 1)).functions = machine.functions := rfl
  rw [step_recording unlimited, record, endFunction, bind_apply, get_bind_apply, sameFunctions,
    defining]
  by_cases known : machine.functions.contains capture.id = true
  · rw [if_pos known, if_pos known]
    exact ⟨_, rfl, { SameState.refl machine with capture := rfl }, rfl⟩
  · rw [if_neg known, if_neg known]
    exact ⟨_, rfl, { SameState.refl machine with functions := rfl, capture := rfl }, rfl⟩

theorem AtRest.defining (rest : machine.AtRest) (id : UInt32) {body : Program}
    (definesNothing : body.DefinesNothing) : (machine.defining id body).AtRest := by
  rw [Machine.defining]
  split
  · exact { rest with }
  · exact rest.define id definesNothing

theorem SameState.defining {left right : Machine} (same : SameState left right)
    (closed : right.capture = none) (id : UInt32) (body : Program) :
    SameState { left.defining id body with capture := none } (right.defining id body) :=
  { same with
    functions := by rw [Machine.defining, Machine.defining, same.functions]
    capture := closed.symm }

end

/-! ## Programs with definitions -/

/-- The program goes on behind its first definition as if the function had been there from the
start, and only the steps of recording it are added. -/
theorem AtRest.executeProgram_definition {machine popped : Machine} {idValue : Value} {id : UInt32}
    (rest : machine.AtRest) (unlimited : machine.limits.maxSteps = none)
    (pops : onStack OperandStack.pop machine = .ok idValue popped)
    (index : idValue.toIndex .function = .ok id) {body : Program}
    (definesNothing : body.DefinesNothing) (later : Program) :
    Agree (fun _ => False) (body.length + 2)
      (fun left right => SameState left right ∧ left.steps = right.steps + (body.length + 2))
      (executeProgram
        ([.control .beginFunction] ++ body ++ [.control .endFunction] ++ later) machine)
      (executeProgram later (popped.defining id body)) := by
  have limits : popped.limits = machine.limits :=
    ((SameState.refl machine).onMemory pops).2.limits.symm
  have restPopped := rest.of_onMemory pops
  have begins : SameState { machine with steps := 0 } machine := { SameState.refl machine with }
  rcases begins.onMemory pops with ⟨popsBegun, sameBegun⟩
  rcases step_beginFunction popsBegun unlimited rest.capture index
    (body ++ .control .endFunction :: later) with ⟨base, opened, sameBase⟩
  have samePopped := sameBase.trans sameBegun
  have baseUnlimited : base.limits.maxSteps = none := by rw [samePopped.limits, limits, unlimited]
  rcases step_endFunction baseUnlimited { id, recorded := body.reverse ++ [] } (0 + 1 + body.length)
    (1 + body.length) later with ⟨middle, closes, sameMiddle, steps⟩
  have sameDefining : SameState middle (popped.defining id body) := by
    rw [List.append_nil, List.reverse_reverse] at sameMiddle
    exact sameMiddle.trans (samePopped.defining restPopped.capture id body)
  have sameLimits : (popped.defining id body).limits = machine.limits := limits
  have continues : runFrom (outermostCall machine.limits) 0 0
      ([.control .beginFunction] ++ body ++ [.control .endFunction] ++ later)
      { machine with steps := 0 } =
        runFrom (outermostCall (popped.defining id body).limits) (0 + (body.length + 2)) 0 later
          middle := by
    have place : 0 + 1 + body.length + 1 = 0 + (body.length + 2) := by omega
    rw [List.append_assoc, List.append_assoc, List.singleton_append, List.singleton_append]
    rw [runFrom, bind_apply_of_ok opened, runFrom_recording baseUnlimited definesNothing]
    rw [runFrom, bind_apply_of_ok closes, sameLimits, place]
  have counted : middle.steps = body.length + 2 := by
    rw [steps]
    omega
  exact ((restPopped.defining id definesNothing).executeProgram_of_continues
    (by rw [sameLimits, unlimited]) sameDefining continues).weaken
    fun _ _ ended => ⟨ended.1, by rw [ended.2, counted]⟩

/-- The body calls a function that is not defined, opens a conditional that it does not close and
clears the stack. All of that is kept for a call, and the program fails behind the definition. -/
theorem executeProgram_definition_clear :
    let machine : Machine := { new {} with memory := { stack := ⟨[.int 7, .int 3], 2⟩ } }
    let popped : Machine := { machine with memory := { stack := ⟨[.int 3], 2⟩ } }
    let body : Program := [.control .call, .control .beginIf, .stack .clear]
    Agree (fun _ => False) 5
        (fun left right => SameState left right ∧ left.steps = right.steps + 5)
        (executeProgram ([.control .beginFunction] ++ body ++ [.control .endFunction] ++
          [.stack .dup, .stack .dup]) machine)
        (executeProgram [.stack .dup, .stack .dup] (popped.defining 7 body)) ∧
      (popped.defining 7 body).functions.get? 7 = some body ∧
      ∃ after, executeProgram [.stack .dup, .stack .dup] (popped.defining 7 body) =
        .error ⟨[.instruction "DUP" 1], .stackOverflow 2⟩ after := by
  intro machine popped body
  have rest : machine.AtRest := (atRest_new _).withMemory _
  have pops : onStack OperandStack.pop machine = .ok (.int 7) popped := rfl
  have definesNothing : body.DefinesNothing := by decide
  exact ⟨rest.executeProgram_definition rfl pops rfl definesNothing _, by decide, ⟨_, rfl⟩⟩

end Hinting.Machine
