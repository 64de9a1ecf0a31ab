import Hinting.Machine.Call
import Hinting.Proofs.Machine.Ending
import Hinting.Proofs.Machine.Shift

/-!
Machines between the runs of a session.

Every machine that calls lead to is at rest, whatever the calls were and however
they ended. A machine at rest corresponds to itself and to every machine in the
same state.
-/

namespace Hinting.Machine

/-! ## Machines at rest -/

/-- No definition is open, no function body is active and the font program is not
being run. Function bodies hold no definitions, since these are not recorded. The
font program is kept as it was decoded, once it has been loaded. -/
structure AtRest (machine : Machine) : Prop where
  capture : machine.capture = none
  callDepth : machine.callDepth = 0
  inFontProgram : machine.inFontProgram = false
  bodies : ∀ id body, machine.functions.get? id = some body → body.DefinesNothing
  keeps : machine.KeepsFontProgram

theorem atRest_new (limits : Limits) : (new limits).AtRest where
  capture := rfl
  callDepth := rfl
  inFontProgram := rfl
  bodies := by
    intro id body found
    exact nomatch found.symm.trans Std.ExtTreeMap.getElem?_empty
  keeps := .unloaded

theorem atRest_withFont (limits : Limits) (font : FontTables) :
    (withFont limits font).AtRest where
  capture := rfl
  callDepth := rfl
  inFontProgram := rfl
  bodies := by
    intro id body found
    exact nomatch found.symm.trans Std.ExtTreeMap.getElem?_empty
  keeps := .unloaded

theorem AtRest.withMemory {machine : Machine} (rest : machine.AtRest) (memory : Memory) :
    { machine with memory }.AtRest :=
  { rest with }

theorem AtRest.of_sameState {left right : Machine} (rest : left.AtRest)
    (same : SameState left right) : right.AtRest where
  capture := same.capture.symm.trans rest.capture
  callDepth := same.callDepth.symm.trans rest.callDepth
  inFontProgram := same.inFontProgram.symm.trans rest.inFontProgram
  bodies := by
    rw [← same.functions]
    exact rest.bodies
  keeps :=
    rest.keeps.of_eq same.font.symm same.fontProgramLoaded.symm same.decodedFontProgram.symm

theorem AtRest.define {machine : Machine} (rest : machine.AtRest) (id : UInt32)
    {body : Program} (definesNothing : body.DefinesNothing) :
    { machine with functions := machine.functions.define id body }.AtRest :=
  { rest with
    bodies := by
      intro other found held
      by_cases same : id = other
      · rw [← same, FunctionTable.get?_define_same] at held
        cases known : machine.functions.get? id with
        | none =>
            rw [known] at held
            cases held
            exact definesNothing
        | some old =>
            rw [known] at held
            cases held
            exact rest.bodies id old known
      · rw [FunctionTable.get?_define_other _ body same] at held
        exact rest.bodies other found held }

/-! ## Outermost programs -/

def outermostCall (limits : Limits) : UInt32 → Nat → MachineAction Unit :=
  callFunction (runNested (limits.maxCallDepth + 1))

theorem run_apply (program : Program) (machine : Machine) :
    run program machine = runFrom (outermostCall machine.limits) 0 0 program machine := by
  rw [run, get_bind_apply, nestingLevels, runNested, runAbove, outermostCall]

theorem runWhole_congr {leftRun rightRun : Program → MachineAction Unit}
    {leftProgram rightProgram : Program} {left right : Machine}
    (same : leftRun leftProgram left = rightRun rightProgram right) :
    runWhole leftRun leftProgram left = runWhole rightRun rightProgram right := by
  rw [runWhole, runWhole, same]

theorem executeProgram_apply (program : Program) (machine : Machine) :
    executeProgram program machine =
      runWhole (runFrom (outermostCall machine.limits) 0 0) program
        { machine with steps := 0 } := by
  have begun : resetSteps machine = .ok () { machine with steps := 0 } := rfl
  rw [executeProgram, bind_apply_of_ok begun]
  exact runWhole_congr (run_apply program _)

theorem runWhole_eq_ok {run : Program → MachineAction Unit} {program : Program}
    {machine after : Machine} :
    runWhole run program machine = .ok () after ↔
      run program machine = .ok () after ∧ after.capture = none := by
  rw [runWhole]
  cases ends : run program machine with
  | error failure middle => simp
  | ok result middle =>
      dsimp only
      cases captured : middle.capture with
      | some capture =>
          constructor
          · intro impossible
            cases impossible
          · rintro ⟨equal, closed⟩
            cases equal
            cases captured.symm.trans closed
      | none =>
          constructor
          · intro equal
            cases equal
            exact ⟨rfl, captured⟩
          · exact And.left

theorem runWhole_eq_error {run : Program → MachineAction Unit} {program : Program}
    {machine after : Machine} {failure : Failure}
    (ran : runWhole run program machine = .error failure after) :
    (∃ middle, run program machine = .error failure middle) ∨
      ∃ id, failure.cause = .unterminatedFunction id := by
  rw [runWhole] at ran
  cases ends : run program machine with
  | error other middle =>
      rw [ends] at ran
      cases ran
      exact .inl ⟨middle, rfl⟩
  | ok result middle =>
      rw [ends] at ran
      dsimp only at ran
      cases captured : middle.capture with
      | none =>
          rw [captured] at ran
          cases ran
      | some capture =>
          rw [captured] at ran
          cases ran
          exact .inr ⟨capture.id, rfl⟩

/-! ## Correspondence at rest -/

namespace Correspondence

variable {limits : Limits} {more levels depth : Nat} {inside definitions : Bool}
  {left right : Machine}

theorem shift_admitsProgram (limits : Limits) (deeper more : Nat) (program : Program) :
    (shift limits deeper more).AdmitsProgram true program :=
  ⟨fun impossible => (nomatch impossible), fun _ _ => trivial⟩

/-- How many programs may be nested is no part of a shift. -/
theorem Holds.atLevels {deeper : Nat}
    (holds : (shift limits deeper more).Holds definitions ⟨levels, depth, inside⟩ left right)
    (otherLevels : Nat) :
    (shift limits deeper more).Holds definitions ⟨otherLevels, depth, inside⟩ left right :=
  { holds with related := { holds.related with } }

theorem callsAgree_outermostCall :
    (shift limits 0 more).CallsAgree ⟨limits.maxCallDepth + 2, depth, inside⟩
      (outermostCall limits) (outermostCall limits) :=
  callsAgree_callFunction (runsAgree_runNested (limits.maxCallDepth + 1))

theorem Holds.runOutermost
    (holds : (shift limits 0 more).Holds definitions ⟨limits.maxCallDepth + 2, 0, false⟩
      left right)
    (index offset : Nat) (program : Program)
    (admitted : (shift limits 0 more).AdmitsProgram definitions program) :
    Agree (shift limits 0 more).excused offset
      ((shift limits 0 more).Holds definitions ⟨limits.maxCallDepth + 2, 0, false⟩)
      (Machine.runFrom (outermostCall limits) (index + offset) 0 program left)
      (Machine.runFrom (outermostCall limits) index 0 program right) :=
  holds.runFrom callsAgree_outermostCall index 0 program admitted

theorem runsAgree_run : (shift limits 0 more).RunsAgree levels run run := by
  intro depth inside definitions program left right admitted holds
  have sameLevels : left.nestingLevels = right.nestingLevels := by
    rw [nestingLevels, nestingLevels, holds.related.leftLimits, holds.related.rightLimits]
  change Agree _ _ _ (runNested left.nestingLevels program left)
    (runNested right.nestingLevels program right)
  rw [sameLevels]
  exact (runsAgree_runNested right.nestingLevels depth inside definitions program left right
    admitted (holds.atLevels _)).weaken fun _ _ kept => kept.atLevels _

theorem Holds.atRest (holds : (shift limits 0 more).Holds false ⟨levels, 0, false⟩ left right) :
    left.AtRest where
  capture := holds.closed rfl
  callDepth := holds.related.leftDepth
  inFontProgram := holds.leftInFontProgram
  bodies id body found := (holds.bodies id body found).1
  keeps := holds.keeps

theorem Holds.sameState
    (holds : (shift limits 0 more).Holds definitions ⟨levels, 0, inside⟩ left right) :
    SameState left right where
  limits := holds.related.leftLimits.trans holds.related.rightLimits.symm
  font := holds.font
  memory := holds.related.memory
  functions := holds.functions
  capture := holds.capture
  decodedFontProgram := holds.decodedFontProgram
  fontProgramLoaded := holds.fontProgramLoaded
  inFontProgram := holds.leftInFontProgram.trans holds.rightInFontProgram.symm
  primed := holds.primed
  callDepth := holds.related.leftDepth.trans holds.related.rightDepth.symm

theorem Holds.of_sameState {other : Nat} {after : Machine}
    (holds : (shift limits 0 more).Holds definitions ⟨levels, 0, false⟩ left right)
    (same : SameState after left) (steps : after.steps = right.steps + other)
    (unlimited : other = 0 ∨ limits.maxSteps = none) :
    (shift limits 0 other).Holds definitions ⟨levels, 0, false⟩ after right where
  related :=
    { holds.related with
      leftLimits := same.limits.trans holds.related.leftLimits
      unlimited := unlimited
      memory := same.memory.trans holds.related.memory
      leftDepth := same.callDepth.trans holds.related.leftDepth
      steps := steps }
  font := same.font.trans holds.font
  functions := same.functions.trans holds.functions
  capture := same.capture.trans holds.capture
  decodedFontProgram := same.decodedFontProgram.trans holds.decodedFontProgram
  fontProgramLoaded := same.fontProgramLoaded.trans holds.fontProgramLoaded
  primed := same.primed.trans holds.primed
  leftInFontProgram := same.inFontProgram.trans holds.leftInFontProgram
  rightInFontProgram := holds.rightInFontProgram
  closed none := same.capture.trans (holds.closed none)
  recorded := by
    rw [same.capture]
    exact holds.recorded
  bodies := by
    rw [same.functions]
    exact holds.bodies
  keeps := holds.keeps.of_eq same.font same.fontProgramLoaded same.decodedFontProgram
  fontProgram := by
    rw [same.font]
    exact holds.fontProgram

end Correspondence

open Correspondence

theorem holds_self {machine : Machine} (closed : machine.capture = none)
    (bodies : ∀ id body, machine.functions.get? id = some body → body.DefinesNothing)
    (keeps : machine.KeepsFontProgram) (levels : Nat) :
    (shift machine.limits 0 0).Holds false ⟨levels, machine.callDepth, machine.inFontProgram⟩
      machine machine where
  related :=
    { leftLimits := rfl
      rightLimits := rfl
      unlimited := .inl rfl
      memory := rfl
      leftDepth := rfl
      rightDepth := rfl
      steps := rfl }
  font := rfl
  functions := rfl
  capture := rfl
  decodedFontProgram := rfl
  fontProgramLoaded := rfl
  primed := rfl
  leftInFontProgram := rfl
  rightInFontProgram := rfl
  closed _ := closed
  recorded _ captured := nomatch captured.symm.trans closed
  bodies id body found := ⟨bodies id body found, fun _ _ => trivial⟩
  keeps
  fontProgram _ program _ _ := shift_admitsProgram _ _ _ program

theorem AtRest.holds_self {machine : Machine} (rest : machine.AtRest) (levels : Nat) :
    (shift machine.limits 0 0).Holds false ⟨levels, 0, false⟩ machine machine := by
  have holds := Machine.holds_self rest.capture rest.bodies rest.keeps levels
  rwa [rest.callDepth, rest.inFontProgram] at holds

theorem AtRest.holds {left right : Machine} (rest : right.AtRest)
    (same : SameState left right) {more : Nat} (steps : left.steps = right.steps + more)
    (unlimited : more = 0 ∨ right.limits.maxSteps = none) (levels : Nat) :
    (shift right.limits 0 more).Holds false ⟨levels, 0, false⟩ left right :=
  (rest.holds_self levels).of_sameState same steps unlimited

theorem AtRest.resetSteps {machine : Machine} (rest : machine.AtRest) :
    { machine with steps := 0 }.AtRest :=
  { rest with }

theorem AtRest.limits_executeProgram {machine : Machine} (rest : machine.AtRest)
    (program : Program) :
    (Outcome.machine (executeProgram program machine)).limits = machine.limits := by
  have agree := Holds.runWhole (runsAgree_run 0 false true program _ _
    (shift_admitsProgram _ _ _ program) (rest.resetSteps.holds_self 0).weaken)
  exact (agree.machines (shift_strict _ _)).related.leftLimits

/-! ## Calls come back to rest -/

def LeavesAtRest (action : MachineAction α) : Prop :=
  ∀ machine : Machine, machine.AtRest → (Outcome.machine (action machine)).AtRest

namespace LeavesAtRest

variable {action : MachineAction α} {next : α → MachineAction β}

theorem of_agree {levels : Nat}
    (agrees : ∀ machine : Machine, machine.AtRest →
      Agree (shift machine.limits 0 0).excused 0
        ((shift machine.limits 0 0).Holds false ⟨levels, 0, false⟩)
        (action machine) (action machine)) :
    LeavesAtRest action := by
  intro machine rest
  exact ((agrees machine rest).machines (shift_strict _ _)).atRest

theorem pure (result : α) : LeavesAtRest (pure result) := fun _ rest => rest

theorem fault (cause : Fault) : LeavesAtRest (fault cause : MachineAction α) :=
  fun _ rest => rest

theorem bind (first : LeavesAtRest action) (rest : ∀ result, LeavesAtRest (next result)) :
    LeavesAtRest (action >>= next) := by
  intro machine atRest
  have middle := first machine atRest
  rw [bind_apply]
  cases ends : action machine with
  | ok result after =>
      rw [ends] at middle
      exact rest result after middle
  | error failure after =>
      rw [ends] at middle
      exact middle

theorem within (context : Context) (leaves : LeavesAtRest action) :
    LeavesAtRest (within context action) := by
  intro machine atRest
  have after := leaves machine atRest
  rw [Machine.within]
  cases ends : action machine with
  | ok result _ =>
      rw [ends] at after
      exact after
  | error failure _ =>
      rw [ends] at after
      exact after

theorem emit (event : Event) : LeavesAtRest (emit event) :=
  fun _ rest => { rest with }

theorem onMemory (action : MemoryAction α) : LeavesAtRest (onMemory action) := by
  intro machine rest
  have same := sameControl_onMemory action machine
  exact {
    capture := same.capture.trans rest.capture
    callDepth := by
      rw [Machine.onMemory]
      split <;> exact rest.callDepth
    inFontProgram := same.inFontProgram.trans rest.inFontProgram
    bodies := by
      rw [same.functions]
      exact rest.bodies
    keeps := rest.keeps.of_eq same.font same.fontProgramLoaded same.decodedFontProgram }

theorem resetSteps : LeavesAtRest resetSteps :=
  fun _ rest => { rest with }

theorem runWhole (program : Program) : LeavesAtRest (runWhole run program) :=
  of_agree fun machine rest =>
    Holds.runWhole (runsAgree_run 0 false true program machine machine
      (shift_admitsProgram _ _ _ program) (rest.holds_self 0).weaken)

theorem runFontProgram : LeavesAtRest (runFontProgram run) :=
  of_agree fun _ rest => (rest.holds_self 1).runFontProgram runsAgree_run

theorem decodeTable (context : Context) (bytes : List UInt8) :
    LeavesAtRest (decodeTable context bytes) :=
  of_agree fun _ rest => (rest.holds_self 0).decodeTable context bytes

theorem executeProgram (program : Program) : LeavesAtRest (executeProgram program) :=
  resetSteps.bind fun _ => runWhole program

theorem executeBytes (bytes : List UInt8) : LeavesAtRest (executeBytes bytes) := by
  rw [Machine.executeBytes]
  cases decode bytes with
  | ok program => exact executeProgram program
  | error malformation => exact fault _

theorem runControlValueProgram (bytes : List UInt8) :
    LeavesAtRest (do
      let program ← Machine.decodeTable .controlValueProgramDecoding bytes
      Machine.emit (.runningControlValueProgram program.length)
      Machine.resetSteps
      Machine.within .controlValueProgram (Machine.runWhole run program)) :=
  (decodeTable _ bytes).bind fun program =>
    (emit _).bind fun _ => resetSteps.bind fun _ => (runWhole program).within _

theorem prime : LeavesAtRest prime := by
  intro machine rest
  rw [Machine.prime]
  rw [get_bind_apply]
  cases machine.primed with
  | true => exact rest
  | false =>
      have asked : { machine with primed := true }.AtRest := { rest with }
      simp only [Bool.false_eq_true, if_false, set_bind_apply]
      generalize { machine with primed := true } = asking at asked ⊢
      cases machine.font with
      | none => exact asked
      | some font =>
          dsimp only
          cases font.controlValueProgram with
          | none => exact emit _ _ asked
          | some bytes => exact runControlValueProgram bytes _ asked

theorem loadFontProgram : LeavesAtRest loadFontProgram := by
  intro machine rest
  rw [Machine.loadFontProgram]
  rw [get_bind_apply]
  cases machine.fontProgramLoaded with
  | true => exact rest
  | false => exact (resetSteps.bind fun _ => runFontProgram) machine rest

theorem nothingAfter {action : MachineAction Unit} (leaves : LeavesAtRest action) :
    LeavesAtRest (Reply.nothingAfter action) :=
  leaves.bind fun _ => pure _

theorem perform (call : Call) : LeavesAtRest call.perform := by
  cases call with
  | executeProgram program => exact (executeProgram program).nothingAfter
  | executeBytes bytes => exact (executeBytes bytes).nothingAfter
  | prime => exact prime.nothingAfter
  | loadFontProgram => exact loadFontProgram.nothingAfter
  | onStack call => exact onMemory _
  | writeStorage location value => exact (onMemory _).nothingAfter
  | setControlValue index value => exact (onMemory _).nothingAfter

end LeavesAtRest

theorem AtRest.of_onMemory {action : MemoryAction α} {machine after : Machine} {result : α}
    (rest : machine.AtRest) (ends : onMemory action machine = .ok result after) :
    after.AtRest := by
  have left := LeavesAtRest.onMemory action machine rest
  rwa [ends] at left

theorem AtRest.afterCall {machine : Machine} (rest : machine.AtRest) (call : Call) :
    (machine.afterCall call).AtRest := by
  have after := LeavesAtRest.perform call machine rest
  rw [Machine.afterCall]
  cases ends : call.perform machine with
  | ok reply _ =>
      rw [ends] at after
      exact after
  | error failure _ =>
      rw [ends] at after
      exact after

theorem AtRest.afterCalls {machine : Machine} (rest : machine.AtRest) (calls : List Call) :
    (machine.afterCalls calls).AtRest := by
  induction calls generalizing machine with
  | nil => exact rest
  | cons call calls induction => exact induction (rest.afterCall call)

end Hinting.Machine
