import Hinting.Proofs.Machine.Rest
import Hinting.Proofs.Memory.Capacity

/-!
Depth limits as cut-offs.

A program cannot tell how deep the stack may become, nor how many function bodies may be active.
With more room a run ends as it did with less, unless it was a limit that ended it.
-/

namespace Hinting.Machine

/-- The right machine is in the state of the left one and has at least as much room, on its stack
and for calls. -/
structure Roomier (left right : Machine) : Prop where
  maxStackDepth : left.limits.maxStackDepth ≤ right.limits.maxStackDepth
  maxCallDepth : left.limits.maxCallDepth ≤ right.limits.maxCallDepth
  maxSteps : left.limits.maxSteps = right.limits.maxSteps
  maxDepth : left.memory.stack.maxDepth ≤ right.memory.stack.maxDepth
  values : left.memory.stack.values = right.memory.stack.values
  storage : left.memory.storage = right.memory.storage
  controlValues : left.memory.controlValues = right.memory.controlValues
  font : left.font = right.font
  functions : left.functions = right.functions
  capture : left.capture = right.capture
  decodedFontProgram : left.decodedFontProgram = right.decodedFontProgram
  fontProgramLoaded : left.fontProgramLoaded = right.fontProgramLoaded
  inFontProgram : left.inFontProgram = right.inFontProgram
  primed : left.primed = right.primed
  callDepth : left.callDepth = right.callDepth

/-! ## The correspondence -/

structure Widened (narrow wide : Limits) (more : Nat) (left right : Machine) : Prop where
  leftLimits : left.limits = narrow
  rightLimits : right.limits = wide
  memory : right.memory = left.memory.deepened more
  callDepth : right.callDepth = left.callDepth
  steps : right.steps = left.steps

namespace Widened

variable {narrow wide : Limits} {more : Nat} {left right : Machine} {offset : Nat}

theorem tick (sameBudget : narrow.maxSteps = wide.maxSteps)
    (widened : Widened narrow wide more left right) :
    Agree Fault.ExceedsDepth offset (Widened narrow wide more) (tick left)
      (Machine.tick right) := by
  have ticked : Widened narrow wide more { left with steps := left.steps + 1 }
      { right with steps := left.steps + 1 } :=
    { widened with steps := rfl }
  have leftLimit : left.limits.maxSteps = narrow.maxSteps := by rw [widened.leftLimits]
  have rightLimit : right.limits.maxSteps = narrow.maxSteps := by
    rw [widened.rightLimits, sameBudget]
  rw [tick_apply, tick_apply, leftLimit, rightLimit, widened.steps]
  cases narrow.maxSteps with
  | none => exact .ok _ ticked
  | some limit =>
      dsimp only
      split
      · exact .error { cause := .stepLimitExceeded limit } ticked
      · exact .ok _ ticked

theorem keeps {action : MemoryAction α} (deepens : Memory.Deepens more action) :
    Keeps (fun _ => Widened narrow wide more) Fault.ExceedsDepth action := by
  intro place left right widened
  unfold onMemory
  rw [widened.memory]
  rcases deepens left.memory with same | ⟨cause, memory, fails, excuse⟩
  · rw [same]
    cases action left.memory with
    | ok result memory => exact .ok result { widened with memory := rfl }
    | error cause memory => exact .error_same { cause } { widened with memory := rfl }
  · rw [fails]
    exact .excuse excuse

end Widened

/-- Runs that end at a depth limit on the left are excused, and only those. -/
def widening {narrow wide : Limits} (roomForCalls : narrow.maxCallDepth ≤ wide.maxCallDepth)
    (sameBudget : narrow.maxSteps = wide.maxSteps) (more : Nat) : Correspondence where
  related _ := Widened narrow wide more
  excused := Fault.ExceedsDepth
  admits _ := True
  spareLevels := wide.maxCallDepth - narrow.maxCallDepth
  tick := Widened.tick sameBudget
  data _ acts := Widened.keeps (Memory.deepens_memoryAction acts)
  require := Widened.keeps (Memory.deepens_onStack (OperandStack.deepens_require _))
  peek := Widened.keeps (Memory.deepens_onStack (OperandStack.deepens_peek _))
  pop := Widened.keeps (Memory.deepens_onStack OperandStack.deepens_pop)
  popTwo := Widened.keeps (Memory.deepens_onStack OperandStack.deepens_popTwo)
  journal widened _ _ := { widened with }
  capture widened _ := { widened with }
  define widened _ _ := { widened with }
  startFontProgram widened _ := { widened with }
  endFontProgram widened := { widened with }
  refuse _ _ := .inl trivial
  enter := by
    intro levels depth inside left right widened room
    refine ⟨?_, { widened with callDepth := congrArg (· + 1) widened.callDepth }⟩
    rw [widened.leftLimits] at room
    rw [widened.rightLimits, widened.callDepth]
    exact Nat.lt_of_lt_of_le room roomForCalls
  leave widened := { widened with callDepth := congrArg (· - 1) widened.callDepth }
  floor _ := .inl trivial

/-! ## Programs -/

open Correspondence

namespace Roomier

variable {left right : Machine}

def correspondence (roomier : Roomier left right) : Correspondence :=
  widening roomier.maxCallDepth roomier.maxSteps
    (right.memory.stack.maxDepth - left.memory.stack.maxDepth)

theorem memory_eq (roomier : Roomier left right) :
    right.memory =
      left.memory.deepened (right.memory.stack.maxDepth - left.memory.stack.maxDepth) := by
  have maxDepth := Nat.add_sub_of_le roomier.maxDepth
  rw [Memory.deepened, OperandStack.deepened, maxDepth, roomier.values, roomier.storage,
    roomier.controlValues]

theorem holds (roomier : Roomier left right) (rest : left.AtRest) (levels : Nat) :
    roomier.correspondence.Holds true ⟨levels, 0, false⟩ { left with steps := 0 }
      { right with steps := 0 } where
  related := ⟨rfl, rfl, roomier.memory_eq, roomier.callDepth.symm, rfl⟩
  font := roomier.font
  functions := roomier.functions
  capture := roomier.capture
  decodedFontProgram := roomier.decodedFontProgram
  fontProgramLoaded := roomier.fontProgramLoaded
  primed := roomier.primed
  leftInFontProgram := rest.inFontProgram
  rightInFontProgram := roomier.inFontProgram.symm.trans rest.inFontProgram
  closed _ := rest.capture
  recorded _ captured := nomatch captured.symm.trans rest.capture
  bodies id body found := ⟨rest.bodies id body found, fun _ _ => trivial⟩
  keeps := rest.keeps
  fontProgram _ _ _ _ := ⟨fun impossible => (nomatch impossible), fun _ _ => trivial⟩

theorem of_holds (roomier : Roomier left right) {definitions : Bool} {place : Place}
    {leftAfter rightAfter : Machine}
    (holds : roomier.correspondence.Holds definitions place leftAfter rightAfter) :
    Roomier leftAfter rightAfter where
  maxStackDepth := by
    rw [holds.related.leftLimits, holds.related.rightLimits]
    exact roomier.maxStackDepth
  maxCallDepth := by
    rw [holds.related.leftLimits, holds.related.rightLimits]
    exact roomier.maxCallDepth
  maxSteps := by
    rw [holds.related.leftLimits, holds.related.rightLimits]
    exact roomier.maxSteps
  maxDepth := by
    rw [holds.related.memory]
    exact Nat.le_add_right _ _
  values := by
    rw [holds.related.memory]
    rfl
  storage := by
    rw [holds.related.memory]
    rfl
  controlValues := by
    rw [holds.related.memory]
    rfl
  font := holds.font
  functions := holds.functions
  capture := holds.capture
  decodedFontProgram := holds.decodedFontProgram
  fontProgramLoaded := holds.fontProgramLoaded
  inFontProgram := holds.leftInFontProgram.trans holds.rightInFontProgram.symm
  primed := holds.primed
  callDepth := holds.related.callDepth.symm

theorem outermostCall_eq (roomier : Roomier left right) :
    outermostCall right.limits = callFunction
      (runNested (left.limits.maxCallDepth + 1 + roomier.correspondence.spareLevels)) := by
  have maxCallDepth := roomier.maxCallDepth
  have spare : roomier.correspondence.spareLevels =
      right.limits.maxCallDepth - left.limits.maxCallDepth := rfl
  have levels : left.limits.maxCallDepth + 1 + roomier.correspondence.spareLevels =
      right.limits.maxCallDepth + 1 := by omega
  rw [outermostCall, levels]

theorem agree_executeProgram (roomier : Roomier left right) (rest : left.AtRest)
    (program : Program) :
    Agree Fault.ExceedsDepth 0
      (fun left right => Roomier left right ∧ right.steps = left.steps)
      (executeProgram program left) (executeProgram program right) := by
  have calls : roomier.correspondence.CallsAgree ⟨left.limits.maxCallDepth + 2, 0, false⟩
      (outermostCall left.limits) (outermostCall right.limits) := by
    rw [roomier.outermostCall_eq]
    exact callsAgree_callFunction (runsAgree_runNested (left.limits.maxCallDepth + 1))
  have begun := roomier.holds rest (left.limits.maxCallDepth + 2)
  rw [executeProgram_apply, executeProgram_apply]
  exact (Holds.runWhole (begun.runFrom calls 0 0 program
      ⟨fun impossible => (nomatch impossible), fun _ _ => trivial⟩)).weaken
    fun _ _ kept => ⟨roomier.of_holds kept, kept.related.steps⟩

end Roomier

/-- With more room on the stack and for calls a run comes to the same, whether it succeeds or fails,
as long as it did not fail at a depth limit. -/
theorem AtRest.executeProgram_roomier {left right : Machine} (rest : left.AtRest)
    (roomier : Roomier left right) (program : Program) :
    (∀ leftAfter, executeProgram program left = .ok () leftAfter →
      ∃ rightAfter, executeProgram program right = .ok () rightAfter ∧
        Roomier leftAfter rightAfter ∧ rightAfter.steps = leftAfter.steps) ∧
    ∀ failure leftAfter, executeProgram program left = .error failure leftAfter →
      ¬ failure.cause.ExceedsDepth →
        ∃ rightAfter, executeProgram program right = .error failure rightAfter ∧
          Roomier leftAfter rightAfter ∧ rightAfter.steps = leftAfter.steps := by
  have agree := roomier.agree_executeProgram rest program
  constructor
  · intro leftAfter ran
    rw [ran] at agree
    exact agree.exists_of_ok
  · intro failure leftAfter ran counts
    rw [ran] at agree
    exact agree.exists_of_error counts

/-- The function that the font program defines duplicates the nine, which fills the narrow stack
from the only call there is room for. Without the nine it fails. -/
theorem executeProgram_roomier_dup :
    let font : FontTables := { fontProgram := some [0xB0, 5, 0x2C, 0x20, 0x2D] }
    let narrow : Machine := withFont { maxStackDepth := 2, maxCallDepth := 1 } font
    let wide : Machine := withFont {} font
    (∃ narrowAfter wideAfter,
      executeProgram [.push (.ofBytes [9, 5]), .control .call] narrow = .ok () narrowAfter ∧
      executeProgram [.push (.ofBytes [9, 5]), .control .call] wide = .ok () wideAfter ∧
      Roomier narrowAfter wideAfter ∧ wideAfter.steps = narrowAfter.steps) ∧
    ∃ wideAfter, executeProgram [.push (.ofBytes [5]), .control .call] wide =
      .error ⟨[.instruction "CALL" 1, .function 5, .instruction "DUP" 0], .stackUnderflow 1 0⟩
        wideAfter := by
  intro font narrow wide
  have rest : narrow.AtRest := atRest_withFont _ _
  have roomier : Roomier narrow wide := by constructor <;> decide
  have succeeds : (executeProgram [.push (.ofBytes [9, 5]), .control .call] narrow
      matches .ok _ _) = true := by decide +kernel
  have fails : Outcome.failure? (executeProgram [.push (.ofBytes [5]), .control .call] narrow) =
      some ⟨[.instruction "CALL" 1, .function 5, .instruction "DUP" 0], .stackUnderflow 1 0⟩ := by
    decide +kernel
  constructor
  · cases ran : executeProgram [.push (.ofBytes [9, 5]), .control .call] narrow with
    | error failure after =>
        rw [ran] at succeeds
        cases succeeds
    | ok result after =>
        rcases (rest.executeProgram_roomier roomier _).1 after ran with ⟨other, ranWide, kept⟩
        exact ⟨after, other, rfl, ranWide, kept⟩
  · have ran := Outcome.eq_error_of_failure? fails
    rcases (rest.executeProgram_roomier roomier _).2 _ _ ran id with ⟨other, ranWide, _⟩
    exact ⟨other, ranWide⟩

end Hinting.Machine
