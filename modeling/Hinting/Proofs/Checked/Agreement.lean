import Hinting.Proofs.Checked.Run
import Hinting.Proofs.Stepping.Transition

/-!
Runs that apply partial operations within their domains only.

A run does what it does with partial operations, as long as its steps can be counted. For that it
leaves the call depth as it was, and the steps that it counts become more.
-/

namespace Hinting.Checked

open Machine (Outcome Oblivious SameNesting)

/-- From this machine on, the two outcomes are the same if the steps can be counted. -/
structure AgreesFrom (machine : Machine) (checked : EStateM.Result (Halt Failure) Machine α)
    (outcome : Outcome α) : Prop where
  callDepth : outcome.machine.callDepth = machine.callDepth
  steps : machine.steps ≤ outcome.machine.steps
  same : outcome.machine.steps < UInt64.size → checked = ending outcome

def Agrees (checked : Checked Failure Machine α) (action : MachineAction α) : Prop :=
  ∀ machine, AgreesFrom machine (checked machine) (action machine)

/-! ## Sequences -/

namespace AgreesFrom

variable {machine middle : Machine} {checked : Checked Failure Machine α}
  {action : MachineAction α}

theorem total (same : SameNesting machine (Outcome.machine (action machine))) :
    AgreesFrom machine (total action machine) (action machine) :=
  ⟨same.callDepth, Nat.le_of_eq same.steps.symm, fun _ => rfl⟩

theorem bind {checkedNext : α → Checked Failure Machine β} {next : α → MachineAction β}
    (first : AgreesFrom machine (checked machine) (action machine))
    (rest : ∀ result, Agrees (checkedNext result) (next result)) :
    AgreesFrom machine ((checked >>= checkedNext) machine) ((action >>= next) machine) := by
  rw [bind_apply, bind_apply]
  generalize checked machine = checkedOutcome at first ⊢
  generalize action machine = outcome at first ⊢
  cases outcome with
  | error failure after =>
      refine ⟨first.callDepth, first.steps, fun fits => ?_⟩
      rw [first.same fits]
      rfl
  | ok result after =>
      -- The steps of the first action can be counted because those of both can.
      have onward := rest result after
      refine ⟨onward.callDepth.trans first.callDepth, Nat.le_trans first.steps onward.steps,
        fun fits => ?_⟩
      rw [first.same (Nat.lt_of_le_of_lt onward.steps fits)]
      exact onward.same fits

theorem within (context : Context)
    (agrees : AgreesFrom machine (checked middle) (action middle)) :
    AgreesFrom machine (within context checked middle) (Machine.within context action middle) := by
  rw [Checked.within, Machine.within]
  generalize checked middle = checkedOutcome at agrees ⊢
  generalize action middle = outcome at agrees ⊢
  cases outcome with
  | _ =>
      refine ⟨agrees.callDepth, agrees.steps, fun fits => ?_⟩
      rw [agrees.same fits]
      rfl

/-- What is done behind the action may bring the call depth back that the action began with. -/
theorem ensuring {last : Checked Failure Machine Unit} {restore : Machine → Machine}
    (agrees : AgreesFrom middle (checked middle) (action middle))
    (begun : middle.steps = machine.steps)
    (steps : ∀ after, (restore after).steps = after.steps)
    (callDepth : ∀ after, after.callDepth = middle.callDepth →
      (restore after).callDepth = machine.callDepth)
    (restores : ∀ after, after.callDepth = middle.callDepth →
      last after = .ok () (restore after)) :
    AgreesFrom machine (ensuring checked last middle) (Machine.ensuring action restore middle) := by
  rw [Checked.ensuring, Machine.ensuring]
  generalize checked middle = checkedOutcome at agrees ⊢
  generalize action middle = outcome at agrees ⊢
  rcases agrees with ⟨depth, more, same⟩
  cases outcome with
  | _ =>
      rename_i after
      refine ⟨callDepth after depth, ?_, fun fits => ?_⟩
      · exact begun ▸ Nat.le_trans more (Nat.le_of_eq (steps after).symm)
      · rw [same (steps after ▸ fits), ending]
        exact bind_apply_of_ok (restores after depth)

end AgreesFrom

namespace Agrees

variable {checked : Checked Failure Machine α} {action : MachineAction α}

theorem total (oblivious : Oblivious action) : Agrees (total action) action :=
  fun machine => .total (.of_oblivious oblivious machine)

theorem pure (result : α) : Agrees (pure result) (pure result) :=
  total (.pure result)

theorem fault (cause : Fault) : Agrees (Checked.total (Machine.fault cause : MachineAction α))
    (Machine.fault cause) :=
  total (.fault cause)

theorem modify {change : Machine → Machine}
    (callDepth : ∀ machine, (change machine).callDepth = machine.callDepth)
    (steps : ∀ machine, (change machine).steps = machine.steps) :
    Agrees (modify change) (modify change) :=
  fun machine => ⟨callDepth machine, Nat.le_of_eq (steps machine).symm, fun _ => rfl⟩

theorem bind {checkedNext : α → Checked Failure Machine β} {next : α → MachineAction β}
    (first : Agrees checked action) (rest : ∀ result, Agrees (checkedNext result) (next result)) :
    Agrees (checked >>= checkedNext) (action >>= next) :=
  fun machine => (first machine).bind rest

theorem get_bind {checkedNext : Machine → Checked Failure Machine β}
    {next : Machine → MachineAction β}
    (rest : ∀ machine, AgreesFrom machine (checkedNext machine machine) (next machine machine)) :
    Agrees (get >>= checkedNext) (get >>= next) :=
  rest

theorem within (context : Context) (agrees : Agrees checked action) :
    Agrees (within context checked) (Machine.within context action) :=
  fun machine => (agrees machine).within context

theorem onMemory (action : MemoryAction α) :
    Agrees (onMemory (Checked.total action)) (Machine.onMemory action) := by
  rw [onMemory_total]
  exact total (.onMemory action)

theorem onStack (action : StackAction α) :
    Agrees (Checked.total (Machine.onStack action)) (Machine.onStack action) :=
  total (.onMemory _)

theorem peek (depth : Nat) :
    Agrees (Checked.onMemory (Checked.onStack (peek depth)))
      (Machine.onStack (OperandStack.peek depth)) := by
  rw [peek_eq, onStack_total]
  exact onMemory _

theorem functionId : Agrees functionId Machine.functionId := by
  rw [functionId_eq]
  exact total Oblivious.compositional.functionId

end Agrees

/-! ## Steps -/

theorem agrees_tick : Agrees tick Machine.tick := by
  intro machine
  have counted := SameNesting.tick machine
  refine ⟨counted.callDepth, ?_, fun fits => ?_⟩
  · rw [counted.steps]
    exact Nat.le_add_right _ _
  · have room : machine.steps + 1 < UInt64.size := by
      rw [counted.steps] at fits
      exact fits
    have incremented : increment? machine.steps = some (machine.steps + 1) := if_pos room
    rw [tick, get_bind_apply, incremented, Machine.tick_apply]
    change checkBudget { machine with steps := machine.steps + 1 } = _
    rw [checkBudget, get_bind_apply]
    cases machine.limits.maxSteps with
    | none => rfl
    | some limit =>
        dsimp only
        split
        · rfl
        · rfl

/-! ## One program -/

section

variable {checkedCall : UInt32 → Nat → Checked Failure Machine Unit}
  {call : UInt32 → Nat → MachineAction Unit}
  (calls : ∀ id count, Agrees (checkedCall id count) (call id count))

theorem agrees_skipBranch (stopAtElse : Bool) {program : Program} {next : Nat}
    (inside : next ≤ program.length) :
    Agrees (skipBranch stopAtElse program next)
      (Machine.skipBranch stopAtElse (program.drop next)) := by
  rw [skipBranch_eq stopAtElse inside]
  exact .total (Oblivious.compositional.skipBranch stopAtElse _)

theorem agrees_data {checked : Checked Fault Memory Unit} {action : MemoryAction Unit}
    (same : checked = total action) :
    Agrees (do onMemory checked; return 0) (do Machine.onMemory action; return 0) := by
  rw [same]
  exact (Agrees.onMemory action).bind fun _ => .pure 0

include calls

theorem agrees_control {program : Program} {next : Nat} (inside : next ≤ program.length)
    (operation : ControlOperation) :
    Agrees (control checkedCall program next operation)
      (Machine.control call (program.drop next) operation) := by
  cases operation with
  | beginFunction =>
      exact Agrees.functionId.bind fun id => (Agrees.onStack _).bind fun _ =>
        Agrees.bind (.modify (fun _ => rfl) (fun _ => rfl)) fun _ => .pure 0
  | endFunction => exact .get_bind fun machine => Agrees.fault _ machine
  | call =>
      exact Agrees.functionId.bind fun id => (Agrees.onStack _).bind fun _ =>
        (calls id 1).bind fun _ => .pure 0
  | loopCall =>
      refine (Agrees.onStack _).bind fun _ => Agrees.functionId.bind fun id =>
        (Agrees.peek 1).bind fun count => (Agrees.onStack _).bind fun _ => ?_
      split
      · exact (calls id _).bind fun _ => .pure 0
      · exact .pure 0
  | beginIf =>
      refine (Agrees.onStack _).bind fun condition => ?_
      split
      · exact .pure 0
      · exact agrees_skipBranch true inside
  | beginElse => exact agrees_skipBranch false inside
  | endIf => exact .pure 0

theorem agrees_execute {program : Program} {next : Nat} (inside : next ≤ program.length)
    (instruction : Instruction) :
    Agrees (execute checkedCall program next instruction)
      (Machine.execute call (program.drop next) instruction) := by
  cases instruction with
  | push push => exact (Agrees.onStack _).bind fun _ => .pure 0
  | stack operation => exact agrees_data (by rw [stackOperation_eq, onStack_total])
  | unary operation => exact agrees_data (by rw [ArithmeticOperation.apply_unary, onStack_total])
  | binary operation => exact agrees_data (by rw [ArithmeticOperation.apply_binary, onStack_total])
  | storage operation => exact agrees_data (storageOperation_eq operation)
  | control operation => exact agrees_control calls inside operation

theorem agrees_step {program : Program} {index : Nat} (inside : index < program.length)
    (instruction : Instruction) :
    Agrees (step checkedCall program index instruction)
      (Machine.step call index instruction (program.drop (index + 1))) := by
  refine agrees_tick.bind fun _ => .get_bind fun machine => ?_
  cases machine.capture with
  | some capture =>
      exact ((Agrees.total (.record capture instruction)).bind fun _ => .pure 0) machine
  | none =>
      dsimp only
      rw [subtract?_of_le (Nat.succ_pos index), defined_some, pure_bind]
      exact ((Agrees.total (.emit _)).bind fun _ =>
        (agrees_execute calls inside instruction).within _) machine

theorem agrees_runFrom {program : Program} (index pass : Nat) {rest : Program}
    (left : program.drop index = rest) :
    Agrees (runFrom checkedCall program index pass rest)
      (Machine.runFrom call index pass rest) := by
  induction rest generalizing index pass with
  | nil =>
      rw [runFrom, Machine.runFrom]
      exact .pure ()
  | cons instruction rest induction =>
      have inside : index < program.length := by
        refine Nat.lt_of_not_le fun beyond => ?_
        rw [List.drop_eq_nil_of_le beyond] at left
        cases left
      have onward : program.drop (index + 1) = rest := by
        rw [← List.tail_drop, left, List.tail_cons]
      cases pass with
      | succ pass => exact induction (index + 1) pass onward
      | zero =>
          rw [runFrom, Machine.runFrom, ← onward]
          refine (agrees_step calls inside instruction).bind fun pass => ?_
          rw [onward]
          exact induction (index + 1) pass onward

end

/-! ## Programs below -/

theorem agrees_decodeTable (context : Context) (bytes : List UInt8) :
    Agrees (decodeTable context bytes) (Machine.decodeTable context bytes) := by
  rw [decodeTable, Machine.decodeTable, decode?_eq, defined_some, pure_bind]
  cases decode bytes with
  | ok program => exact .pure program
  | error malformation => exact (Agrees.fault _).within context

theorem agrees_decodeFontProgram : Agrees decodeFontProgram Machine.decodeFontProgram := by
  refine .get_bind fun machine => ?_
  cases machine.decodedFontProgram with
  | some program => exact Agrees.pure (some program) machine
  | none =>
      cases machine.font.bind FontTables.fontProgram with
      | none => exact Agrees.pure none machine
      | some bytes =>
          refine ((agrees_decodeTable _ bytes).bind fun program => ?_) machine
          exact Agrees.bind (.modify (fun _ => rfl) (fun _ => rfl)) fun _ => .pure (some program)

theorem oblivious_definedBody (id : UInt32) : Oblivious (Machine.definedBody id) := by
  intro surroundings machine
  rw [Machine.definedBody_apply, Machine.definedBody_apply, Machine.inside_functions]
  cases machine.functions.get? id with
  | some body => rfl
  | none => rfl

theorem leaveFunction_apply {machine : Machine} (entered : 1 ≤ machine.callDepth) :
    leaveFunction machine = .ok () { machine with callDepth := machine.callDepth - 1 } := by
  rw [leaveFunction, get_bind_apply, subtract?_of_le entered, defined_some]
  rfl

section

variable {checkedRun : Program → Checked Failure Machine Unit} {run : Program → MachineAction Unit}
  (runs : ∀ program, Agrees (checkedRun program) (run program))

include runs

theorem agrees_runWhole (program : Program) :
    Agrees (runWhole checkedRun program) (Machine.runWhole run program) := by
  intro machine
  have agrees := runs program machine
  rw [runWhole, Machine.runWhole]
  generalize checkedRun program machine = checkedOutcome at agrees ⊢
  generalize run program machine = outcome at agrees ⊢
  rcases agrees with ⟨depth, more, same⟩
  cases outcome with
  | error failure after =>
      refine ⟨depth, more, fun fits => ?_⟩
      rw [same fits]
      rfl
  | ok result after =>
      dsimp only
      cases captured : after.capture with
      | _ =>
          refine ⟨depth, more, fun fits => ?_⟩
          rw [same fits]
          change endProgram after = _
          rw [endProgram, get_bind_apply, captured]
          rfl

theorem agrees_runFontProgram :
    Agrees (runFontProgram checkedRun) (Machine.runFontProgram run) := by
  refine agrees_decodeFontProgram.bind fun found => ?_
  cases found with
  | none => exact Agrees.pure ()
  | some program =>
      refine (Agrees.total (.emit _)).bind fun _ => ?_
      refine Agrees.bind (.modify (fun _ => rfl) (fun _ => rfl)) fun _ => ?_
      refine Agrees.bind (.within _ fun machine => ?_) fun _ => ?_
      · exact (agrees_runWhole runs program machine).ensuring rfl (fun _ => rfl)
          (fun _ same => same) (fun _ _ => rfl)
      · exact .get_bind fun machine => Agrees.total (.emit _) machine

theorem agrees_resolve (id : UInt32) :
    Agrees (resolve checkedRun id) (Machine.resolve run id) := by
  refine .get_bind fun machine => ?_
  have lookUp := oblivious_definedBody id
  cases machine.functions.get? id with
  | some body => exact Agrees.pure body machine
  | none =>
      dsimp only
      split
      · exact Agrees.total lookUp machine
      · exact ((Agrees.total (.emit _)).bind fun _ =>
          (agrees_runFontProgram runs).bind fun _ => .total lookUp) machine

theorem agrees_repeatBody (body : Program) (count : Nat) :
    Agrees (repeatBody checkedRun body count) (Machine.repeatBody run body count) := by
  induction count with
  | zero => exact .pure ()
  | succ count induction =>
      exact agrees_tick.bind fun _ => (runs body).bind fun _ => induction

/-- The depth that a function is left with is not below the one it was entered with. -/
theorem agrees_callFunction (id : UInt32) (count : Nat) :
    Agrees (callFunction checkedRun id count) (Machine.callFunction run id count) := by
  refine (agrees_resolve runs id).bind fun body => .get_bind fun machine => ?_
  split
  · exact Agrees.fault _ machine
  · -- The body leaves the depth that it was entered with, which is one at least.
    let entered := { machine with callDepth := machine.callDepth + 1 }
    refine AgreesFrom.within _ ((agrees_repeatBody runs body count entered).ensuring rfl
      (fun _ => rfl) (fun after same => ?_) fun after same => leaveFunction_apply ?_)
    · exact congrArg (· - 1) same
    · rw [same]
      exact Nat.le_add_left 1 machine.callDepth

end

/-! ## All levels -/

theorem agrees_runNested (levels : Nat) (program : Program) :
    Agrees (runNested levels program) (Machine.runNested levels program) := by
  induction levels generalizing program with
  | zero => exact .get_bind fun machine => Agrees.fault _ machine
  | succ levels induction =>
      exact agrees_runFrom (agrees_callFunction induction) 0 0 List.drop_zero

theorem agrees_run (program : Program) : Agrees (run program) (Machine.run program) :=
  .get_bind fun machine => agrees_runNested machine.nestingLevels program machine

end Hinting.Checked
