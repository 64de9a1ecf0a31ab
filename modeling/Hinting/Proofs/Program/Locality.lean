import Hinting.Proofs.Machine.Rest
import Hinting.Proofs.Memory.Locality

/-!
Programs leave the bottom of the stack alone.

Without CLEAR and DEPTH a program cannot tell what lies below the values that it takes, so a run
that succeeds does the same above any other values. Function bodies and the font program are part of
the run.
-/

namespace Hinting

def Program.IsLocal (program : Program) : Prop :=
  ∀ instruction ∈ program, instruction.isLocal = true

namespace Program

instance (program : Program) : Decidable program.IsLocal :=
  inferInstanceAs (Decidable (∀ instruction ∈ program, instruction.isLocal = true))

end Program

namespace Machine

def above (below : List Value) (machine : Machine) : Machine :=
  { machine with
    limits := { machine.limits with
      maxStackDepth := machine.limits.maxStackDepth + below.length }
    memory := machine.memory.above below }

/-! ## The correspondence -/

/-- The right machine has other values at the bottom of its stack, and is the left one but for
them. -/
structure LiesAbove (below : List Value) (left right : Machine) : Prop where
  limits : right.limits = (left.above below).limits
  memory : right.memory = left.memory.above below
  callDepth : right.callDepth = left.callDepth
  steps : right.steps = left.steps

namespace LiesAbove

variable {below : List Value} {left right : Machine} {offset : Nat}

theorem tick (above : LiesAbove below left right) :
    Agree (fun _ => True) offset (LiesAbove below) (tick left) (Machine.tick right) := by
  have ticked : LiesAbove below { left with steps := left.steps + 1 }
      { right with steps := right.steps + 1 } :=
    { above with steps := congrArg (· + 1) above.steps }
  have sameBudget : right.limits.maxSteps = left.limits.maxSteps := by rw [above.limits]; rfl
  rw [tick_apply, tick_apply, sameBudget, above.steps]
  cases left.limits.maxSteps with
  | none => exact .ok _ (above.steps ▸ ticked)
  | some limit =>
      dsimp only
      split
      · exact .excuse trivial
      · exact .ok _ (above.steps ▸ ticked)

theorem keeps {action : MemoryAction α} (commutes : CommutesWith (Memory.above below) action) :
    Keeps (fun _ => LiesAbove below) (fun _ => True) action := by
  intro place left right above
  unfold onMemory
  rw [above.memory]
  cases acted : action left.memory with
  | error cause memory => exact .excuse trivial
  | ok result memory =>
      rw [commutes _ _ _ acted]
      exact .ok result { above with memory := rfl }

end LiesAbove

/-- Nothing is said of runs that fail: where values are missing on the left, the right program goes
on with those below. -/
def frame (below : List Value) : Correspondence where
  related _ := LiesAbove below
  excused _ := True
  admits instruction := instruction.isLocal = true
  spareLevels := 0
  tick := LiesAbove.tick
  data isLocal acts := LiesAbove.keeps (Instruction.commutes_memoryAction isLocal acts)
  require := LiesAbove.keeps (Memory.commutes_onStack (OperandStack.commutes_require _))
  peek := LiesAbove.keeps (Memory.commutes_onStack (OperandStack.commutes_peek _))
  pop := LiesAbove.keeps (Memory.commutes_onStack OperandStack.commutes_pop)
  popTwo := LiesAbove.keeps (Memory.commutes_onStack OperandStack.commutes_popTwo)
  journal above _ _ := { above with }
  capture above _ := { above with }
  define above _ _ := { above with }
  startFontProgram above _ := { above with }
  endFontProgram above := { above with }
  refuse _ _ := .inl trivial
  enter := by
    intro levels depth inside left right above room
    refine ⟨?_, { above with callDepth := congrArg (· + 1) above.callDepth }⟩
    rw [above.limits, above.callDepth]
    exact room
  leave above := { above with callDepth := congrArg (· - 1) above.callDepth }
  floor _ := .inl trivial

/-! ## Programs -/

structure CallsLocally (machine : Machine) : Prop where
  bodies : ∀ id body, machine.functions.get? id = some body → body.IsLocal
  fontProgram : ∀ bytes program,
    machine.font.bind FontTables.fontProgram = some bytes → decode bytes = .ok program →
      program.IsLocal

open Correspondence

theorem AtRest.holds_above {machine : Machine} (rest : machine.AtRest)
    (locally : machine.CallsLocally) (below : List Value) (levels : Nat) :
    (frame below).Holds false ⟨levels, 0, false⟩ machine (machine.above below) where
  related := ⟨rfl, rfl, rfl, rfl⟩
  font := rfl
  functions := rfl
  capture := rfl
  decodedFontProgram := rfl
  fontProgramLoaded := rfl
  primed := rfl
  leftInFontProgram := rest.inFontProgram
  rightInFontProgram := rest.inFontProgram
  closed _ := rest.capture
  recorded _ captured := nomatch captured.symm.trans rest.capture
  bodies id body found := ⟨rest.bodies id body found, locally.bodies id body found⟩
  keeps := rest.keeps
  fontProgram bytes program found decoded :=
    ⟨fun impossible => (nomatch impossible), locally.fontProgram bytes program found decoded⟩

theorem Correspondence.Holds.sameState_above {below : List Value} {definitions : Bool}
    {place : Place} {left right : Machine}
    (holds : (frame below).Holds definitions place left right) :
    SameState right (left.above below) where
  limits := holds.related.limits
  font := holds.font.symm
  memory := holds.related.memory
  functions := holds.functions.symm
  capture := holds.capture.symm
  decodedFontProgram := holds.decodedFontProgram.symm
  fontProgramLoaded := holds.fontProgramLoaded.symm
  inFontProgram := holds.rightInFontProgram.trans holds.leftInFontProgram.symm
  primed := holds.primed.symm
  callDepth := holds.related.callDepth

/-- A run that succeeds does so above any other values, in the same number of steps, and leaves
these below its results. -/
theorem AtRest.executeProgram_above {machine after : Machine} (rest : machine.AtRest)
    (locally : machine.CallsLocally) {program : Program} (isLocal : program.IsLocal)
    (ran : executeProgram program machine = .ok () after) (below : List Value) :
    ∃ other, executeProgram program (machine.above below) = .ok () other ∧
      SameState other (after.above below) ∧ other.steps = after.steps := by
  have begun : (frame below).Holds true ⟨machine.limits.maxCallDepth + 2, 0, false⟩
      { machine with steps := 0 } { machine.above below with steps := 0 } :=
    (rest.resetSteps.holds_above { locally with } below _).weaken
  have admitted : (frame below).AdmitsProgram true program :=
    ⟨fun impossible => (nomatch impossible), isLocal⟩
  have agree := Holds.runWhole (runsAgree_runNested _ 0 false true program _ _ admitted begun)
  rw [executeProgram_apply] at ran ⊢
  change Agree _ _ _ (runWhole (runFrom (outermostCall machine.limits) 0 0) program _) _ at agree
  rw [ran] at agree
  generalize ends : runWhole _ program _ = outcome at agree
  cases agree with
  | @ok _ _ other holds => exact ⟨other, ends, holds.sameState_above, holds.related.steps⟩

/-- The function is defined by the font program when it is called, and then duplicates the nine. -/
theorem executeProgram_above_call :
    let machine : Machine :=
      { withFont {} { fontProgram := some [0xB0, 5, 0x2C, 0x20, 0x2D] } with
        memory := { stack := ⟨[.int 9], 2⟩ } }
    let program : Program := [.push (.ofBytes [5]), .control .call]
    ∃ after other, executeProgram program machine = .ok () after ∧
      after.memory.stack.values = [.int 9, .int 9] ∧
      executeProgram program (machine.above [.int 2, .int 1]) = .ok () other ∧
      SameState other (after.above [.int 2, .int 1]) ∧ other.steps = after.steps := by
  intro machine program
  have rest : machine.AtRest := (atRest_withFont _ _).withMemory _
  have locally : machine.CallsLocally :=
    { bodies := by
        intro id body found
        exact nomatch found.symm.trans Std.ExtTreeMap.getElem?_empty
      fontProgram := by
        intro bytes program found decoded
        cases found
        cases decoded
        decide }
  have succeeds : (executeProgram program machine matches .ok _ _) = true := by decide +kernel
  have values : (Outcome.machine (executeProgram program machine)).memory.stack.values =
      [.int 9, .int 9] := by decide +kernel
  cases ran : executeProgram program machine with
  | error failure after =>
      rw [ran] at succeeds
      cases succeeds
  | ok result after =>
      rw [ran] at values
      rcases rest.executeProgram_above locally (by decide) ran [.int 2, .int 1] with
        ⟨other, ranAbove, same, steps⟩
      exact ⟨after, other, rfl, values, ranAbove, same, steps⟩

end Machine

end Hinting
