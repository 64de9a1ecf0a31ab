import Hinting.Proofs.Stepping.Nesting
import Hinting.Proofs.Stepping.Phases

/-!
Small steps come to the end that the whole run comes to.

The levels of nested programs that a run is given are never used up: another program is only entered
while there is room for it, and it leaves less room than there was.
-/

namespace Hinting.Machine

/-! ## Room -/

/-- How many programs can still be nested in the active one: function bodies up to the limit, and
the font program unless it is active. -/
def room (machine : Machine) : Nat :=
  (machine.limits.maxCallDepth - machine.callDepth) + (1 - machine.inFontProgram.toNat)

namespace Nested

variable {limits : Limits} {active other : Activation} {callers others : List Caller}
  {machine after : Machine}

theorem room_eq (nested : Nested limits active callers machine) :
    machine.room =
      (limits.maxCallDepth - functionBodies (purposes active callers)) +
        (1 - fontPrograms (purposes active callers)) := by
  rw [room, nested.sameLimits, nested.callDepth, nested.inFontProgram]

theorem same_room (nested : Nested limits active callers machine)
    (later : Nested limits other others after)
    (same : purposes other others = purposes active callers) : after.room = machine.room := by
  rw [nested.room_eq, later.room_eq, same]

theorem same_room_reentered {id : UInt32} {more fewer : Nat} {body : Program} {index place : Nat}
    (nested : Nested limits ⟨.function id more, body, index⟩ callers machine)
    (later : Nested limits ⟨.function id fewer, body, place⟩ callers after) :
    after.room = machine.room := by
  rw [nested.room_eq, later.room_eq, purposes, purposes, functionBodies_function,
    functionBodies_function, fontPrograms_function, fontPrograms_function]

end Nested

/-! ## Steps -/

theorem Reaches.step (active : Activation) (callers : List Caller) (machine : Machine) :
    Reaches (.running active callers machine) (advance active callers machine) :=
  .single (.advance active callers machine)

/-! ## Places that runs come to -/

def atEnd (active : Activation) (callers : List Caller) : Outcome Unit → Progress
  | .ok _ machine => .running { active with index := active.program.length } callers machine
  | .error failure machine => .ended (fail active.purpose callers failure machine)

def resume (caller : Caller) (callers : List Caller) : Outcome Unit → Progress
  | .ok _ machine => .running caller.toActivation callers machine
  | .error failure machine =>
      .ended (fail caller.purpose callers (failure.within caller.site) machine)

/-- Steps from the beginning of a program come to where `run` comes to. -/
def RunsArrive (limits : Limits) (levels : Nat) (run : Program → MachineAction Unit) : Prop :=
  ∀ purpose program callers machine,
    Nested limits ⟨purpose, program, 0⟩ callers machine → machine.room < levels →
      Reaches (.running ⟨purpose, program, 0⟩ callers machine)
        (atEnd ⟨purpose, program, 0⟩ callers (run program machine))

/-- Steps from a call come to where `call` comes to. -/
def CallsArrive (limits : Limits) (levels : Nat) (call : UInt32 → Nat → MachineAction Unit) :
    Prop :=
  ∀ (caller : Caller) callers machine,
    Nested limits caller.toActivation callers machine → machine.room ≤ levels →
      Reaches (await caller callers (invoke caller.invocation machine))
        (resume caller callers (call caller.invocation.id caller.invocation.count machine))

/-! ## Programs -/

theorem runFrom_drop (call : UInt32 → Nat → MachineAction Unit) (program : Program)
    {index pass : Nat} (inside : index + pass ≤ program.length) :
    runFrom call index pass (program.drop index) =
      runFrom call (index + pass) 0 (program.drop (index + pass)) := by
  have passed : ((program.drop index).take pass).length = pass := by
    rw [List.length_take, List.length_drop]
    omega
  have passes := runFrom_length call index ((program.drop index).take pass)
    (program.drop (index + pass))
  rwa [passed, List.drop_drop.symm, List.take_append_drop, List.drop_drop] at passes

variable {limits : Limits} {levels : Nat} {active : Activation} {callers : List Caller}
  {machine after : Machine}

theorem runFrom_fetched (call : UInt32 → Nat → MachineAction Unit) {instruction : Instruction}
    (fetched : active.program[active.index]? = some instruction) :
    runFrom call active.index 0 (active.program.drop active.index) = (do
      let effect ← fetch active.index instruction (active.program.drop (active.index + 1))
      let pass ← within (.instruction instruction.mnemonic active.index) (settle call effect)
      runFrom call (active.index + 1) pass (active.program.drop (active.index + 1))) := by
  have ⟨inside, equal⟩ := List.getElem?_eq_some_iff.mp fetched
  rw [List.drop_eq_getElem_cons inside, equal, runFrom, step_eq, bind_assoc]

theorem settle_call_eq (call : UInt32 → Nat → MachineAction Unit) (site : Context)
    (invocation : Invocation) :
    within site (settle call (.call invocation)) = (do
      within site (call invocation.id invocation.count)
      return 0) := by
  rw [settle, within_bind]
  rfl

theorem CallsArrive.called {call : UInt32 → Nat → MachineAction Unit}
    (calls : CallsArrive limits levels call) (nested : Nested limits active callers machine)
    (enough : machine.room ≤ levels) (site : Context) (invocation : Invocation)
    (inside : active.index + 1 ≤ active.program.length)
    (same : SameNesting (machine.charged 1) after) :
    Reaches (await (active.calling site invocation) callers (invoke invocation after))
      (resume (active.calling site invocation) callers
        (call invocation.id invocation.count after)) := by
  have waiting : Nested limits (active.calling site invocation).toActivation callers after :=
    ((nested.charged 1).atIndex inside).of_same same
  refine calls (active.calling site invocation) callers after waiting ?_
  rwa [nested.same_room waiting rfl]

def runRest (call : UInt32 → Nat → MachineAction Unit) (active : Activation) :
    MachineAction Unit :=
  runFrom call active.index 0 (active.program.drop active.index)

/-- From every later place that the active program gets to, steps come to where the rest of the
program comes to. -/
def ArrivesLater (call : UInt32 → Nat → MachineAction Unit) (active : Activation)
    (callers : List Caller) (machine : Machine) : Prop :=
  ∀ index after, active.index < index → index ≤ active.program.length →
    Reaches (.running active callers machine) (.running { active with index } callers after) →
      Reaches (.running active callers machine)
        (atEnd active callers (runRest call { active with index } after))

theorem reaches_runRest_ended (call : UInt32 → Nat → MachineAction Unit)
    (nested : Nested limits active callers machine)
    (ended : active.program[active.index]? = none) :
    Reaches (.running active callers machine)
      (atEnd active callers (runRest call active machine)) := by
  have atLength : active.index = active.program.length :=
    Nat.le_antisymm nested.inside (List.getElem?_eq_none_iff.mp ended)
  rw [runRest, atLength, List.drop_length, runFrom]
  change Reaches _ (.running { active with index := active.program.length } callers machine)
  rw [← atLength]
  exact .refl

theorem CallsArrive.reaches_settled {call : UInt32 → Nat → MachineAction Unit}
    (calls : CallsArrive limits levels call) (nested : Nested limits active callers machine)
    (enough : machine.room ≤ levels) (later : ArrivesLater call active callers machine)
    (site : Context) (invocation : Invocation)
    (inside : active.index + 1 ≤ active.program.length)
    (same : SameNesting (machine.charged 1) after)
    (stepped : Reaches (.running active callers machine)
      (await (active.calling site invocation) callers (invoke invocation after))) :
    Reaches (.running active callers machine)
      (atEnd active callers
        ((do
          let pass ← within site (settle call (.call invocation))
          runFrom call (active.index + 1) pass (active.program.drop (active.index + 1)))
          after)) := by
  have called := stepped.trans (calls.called nested enough site invocation inside same)
  rw [settle_call_eq, bind_assoc]
  cases acted : call invocation.id invocation.count after with
  | error failure left =>
      rw [acted] at called
      rw [bind_apply_of_error (within_apply_of_error _ acted)]
      exact called
  | ok result left =>
      rw [acted] at called
      rw [bind_apply_of_ok (within_apply_of_ok _ acted), pure_bind]
      exact later (active.index + 1) left (Nat.lt_succ_self _) inside called

theorem CallsArrive.reaches_fetched {call : UInt32 → Nat → MachineAction Unit}
    (calls : CallsArrive limits levels call) (nested : Nested limits active callers machine)
    (enough : machine.room ≤ levels) (later : ArrivesLater call active callers machine)
    {instruction : Instruction} (fetched : active.program[active.index]? = some instruction) :
    Reaches (.running active callers machine)
      (atEnd active callers (runRest call active machine)) := by
  have inside : active.index + 1 ≤ active.program.length :=
    (List.getElem?_eq_some_iff.mp fetched).1
  have same := SameNesting.fetch active.index instruction
    (active.program.drop (active.index + 1)) machine
  have stepped := Reaches.step active callers machine
  rw [advance, fetched] at stepped
  rw [runRest, runFrom_fetched call fetched]
  dsimp only at stepped
  cases ends : fetch active.index instruction (active.program.drop (active.index + 1))
      machine with
  | error failure after =>
      rw [ends] at stepped
      rw [bind_apply_of_error ends]
      exact stepped
  | ok effect after =>
      rw [ends] at stepped same
      rw [bind_apply_of_ok ends]
      cases effect with
      | goOn pass =>
          have jumped : pass ≤ (active.program.drop (active.index + 1)).length :=
            returns_fetch _ _ _ _ _ _ ends
          rw [List.length_drop] at jumped
          have passes := later (active.index + 1 + pass) after (by omega) (by omega) stepped
          rw [runRest] at passes
          rwa [← runFrom_drop call active.program (by omega)] at passes
      | call invocation =>
          exact calls.reaches_settled nested enough later _ invocation inside same stepped

/-- Steps inside a program come to its end, or to a failure. Every instruction leads to a later
place, and a call comes back to the room that it was made in. -/
theorem CallsArrive.reaches_runRest {call : UInt32 → Nat → MachineAction Unit}
    (calls : CallsArrive limits levels call) (active : Activation) (callers : List Caller)
    (machine : Machine) (nested : Nested limits active callers machine)
    (enough : machine.room ≤ levels) :
    Reaches (.running active callers machine)
      (atEnd active callers (runRest call active machine)) := by
  induction remaining : active.program.length - active.index using Nat.strongRecOn
    generalizing active machine with
  | ind remaining induction =>
      have later : ArrivesLater call active callers machine := by
        intro index after forward inside reaches
        have there := nested.of_reaches reaches
        refine reaches.trans (induction (active.program.length - index) (by omega)
          { active with index } after there ?_ rfl)
        rwa [nested.same_room there rfl]
      cases fetched : active.program[active.index]? with
      | none => exact reaches_runRest_ended call nested fetched
      | some instruction => exact calls.reaches_fetched nested enough later fetched

/-! ## Function bodies -/

section

variable {run : Program → MachineAction Unit} {caller : Caller}

theorem reaches_finish (purpose : Purpose) (program : Program) (callers : List Caller)
    (machine : Machine) :
    Reaches (.running ⟨purpose, program, program.length⟩ callers machine)
      (finish ⟨purpose, program, program.length⟩ callers machine) := by
  have stepped := Reaches.step ⟨purpose, program, program.length⟩ callers machine
  rwa [advance, List.getElem?_eq_none (Nat.le_refl _)] at stepped

theorem reaches_finishCall (runs : RunsArrive limits levels run) (id : UInt32) (more : Nat)
    (body : Program) (machine : Machine)
    (nested : Nested limits ⟨.function id more, body, body.length⟩ (caller :: callers) machine)
    (enough : machine.room < levels) :
    Reaches (.running ⟨.function id more, body, body.length⟩ (caller :: callers) machine)
      (resume caller callers (finishCall run id more body machine)) := by
  -- Between two entries of the body there is as much room as before the first one.
  induction more generalizing machine with
  | zero => exact reaches_finish _ _ _ _
  | succ more induction =>
      have stepped := reaches_finish (.function id (more + 1)) body (caller :: callers) machine
      change Reaches _ (finishBody id (more + 1) body (caller :: callers) machine) at stepped
      rw [finishBody] at stepped
      rw [finishCall_succ, bind_apply]
      cases ticked : tick machine with
      | error failure after =>
          rw [ticked] at stepped
          exact stepped
      | ok result middle =>
          rw [ticked] at stepped
          have inBody := nested.of_reaches stepped
          have entered := stepped.trans
            (runs _ _ _ _ inBody (by rwa [nested.same_room_reentered inBody]))
          dsimp only
          cases ran : run body middle with
          | error failure after =>
              rw [ran] at entered
              exact entered
          | ok result after =>
              rw [ran] at entered
              have ended := nested.of_reaches entered
              exact entered.trans
                (induction after ended (by rwa [nested.same_room_reentered ended]))

theorem reaches_callDefined (runs : RunsArrive limits levels run)
    (nested : Nested limits caller.toActivation callers machine)
    (enough : machine.room ≤ levels) :
    Reaches (await caller callers (enterDefined caller.invocation machine))
      (resume caller callers (callDefined run caller.invocation machine)) := by
  rw [enterDefined, callDefined, bind_apply, bind_apply, definedBody_apply]
  cases machine.functions.get? caller.invocation.id with
  | none => exact .refl
  | some body =>
      dsimp only
      rw [callBody, bind_apply, enter_apply]
      split
      · exact .refl
      · next full =>
          have free := Nat.lt_of_not_le full
          have inBody := nested.enterFunction body free
          refine reaches_finishCall runs _ _ body _ inBody ?_
          rw [room] at enough ⊢
          dsimp only
          omega

/-! ## The font program -/

theorem reaches_finishFontProgram (runs : RunsArrive limits levels run) {program : Program}
    (nested : Nested limits ⟨.fontProgram, program, 0⟩ (caller :: callers) machine)
    (enough : machine.room < levels) :
    Reaches (.running ⟨.fontProgram, program, 0⟩ (caller :: callers) machine)
      (resume caller callers
        ((do finishFontProgram run program; callDefined run caller.invocation) machine)) := by
  have arrives := runs _ _ _ _ nested enough
  rw [bind_apply, finishFontProgram_apply, runWhole]
  cases ends : run program machine with
  | error failure after =>
      rw [ends] at arrives
      exact arrives
  | ok result after =>
      rw [ends] at arrives
      have finishes := arrives.trans (reaches_finish _ _ _ _)
      change Reaches _ (finishWhole .fontProgram (caller :: callers) after) at finishes
      rw [finishWhole] at finishes
      dsimp only
      cases captured : after.capture with
      | some capture =>
          rw [captured] at finishes
          exact finishes
      | none =>
          rw [captured] at finishes
          have waiting : Nested limits caller.toActivation callers after.leaveFontProgram :=
            ((nested.of_reaches arrives).leaveFontProgram rfl).of_same
              ⟨rfl, rfl, rfl, rfl⟩
          -- The font program gives back one place, which the function body may need.
          refine finishes.trans (reaches_callDefined runs waiting ?_)
          rw [nested.room_eq, purposes, functionBodies_fontProgram,
            fontPrograms_fontProgram] at enough
          rw [waiting.room_eq]
          change limits.maxCallDepth - functionBodies (purposes caller.toActivation callers) + _ <
            levels at enough
          omega

/-! ## All levels -/

theorem callsArrive_callFunction (runs : RunsArrive limits levels run) :
    CallsArrive limits levels (callFunction run) := by
  intro caller callers machine nested enough
  rw [invoke_apply, callFunction_apply]
  split
  · exact reaches_callDefined runs nested enough
  · next unknown =>
      have outside : machine.inFontProgram = false :=
        (Bool.or_eq_false_iff.mp (Bool.eq_false_iff.mpr unknown)).2
      have resolving : Nested limits caller.toActivation callers
          { machine with journal := .resolving caller.invocation.id :: machine.journal } :=
        nested.of_same ⟨rfl, rfl, rfl, rfl⟩
      have found : fontProgram?
          { machine with journal := .resolving caller.invocation.id :: machine.journal } =
            machine.fontProgram? := rfl
      rw [runFontProgram_eq, bind_assoc, bind_apply, enterFontProgram_apply, found]
      dsimp only
      cases machine.fontProgram? with
      | error malformation => exact .refl
      | ok found =>
          cases found with
          | none => exact reaches_callDefined runs resolving enough
          | some program =>
              have entered := nested.enterFontProgram program outside
              refine reaches_finishFontProgram runs (entered.of_same ⟨rfl, rfl, rfl, rfl⟩) ?_
              rw [room, outside] at enough
              exact enough

end

theorem runsArrive_runNested (limits : Limits) (levels : Nat) :
    RunsArrive limits levels (runNested levels) := by
  induction levels with
  | zero =>
      intro purpose program callers machine nested impossible
      exact absurd impossible (Nat.not_lt_zero _)
  | succ levels induction =>
      intro purpose program callers machine nested enough
      exact (callsArrive_callFunction induction).reaches_runRest ⟨purpose, program, 0⟩ callers
        machine nested (Nat.le_of_lt_succ enough)

theorem Nested.arrives {purpose : Purpose} {program : Program}
    (nested : Nested limits ⟨purpose, program, 0⟩ callers machine) :
    Reaches (.running ⟨purpose, program, 0⟩ callers machine)
      (atEnd ⟨purpose, program, 0⟩ callers (run program machine)) := by
  rw [run, get_bind_apply]
  refine runsArrive_runNested limits machine.nestingLevels _ _ _ _ nested ?_
  rw [room, nestingLevels]
  omega

end Hinting.Machine
