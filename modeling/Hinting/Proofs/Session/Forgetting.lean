import Hinting.Machine.Snapshot
import Hinting.Proofs.Session.Calls

/-!
What a machine remembers of its past.

Stack, storage, control values, functions and two flags are all that tells one machine of a font
from another one with the same limits. How a machine has come there makes no difference to what
follows: every call has the same reply, and machines that cannot be told apart stay so. What they
keep of the font program is the same, because it is what the font stands for.
-/

namespace Hinting.Machine

open Correspondence

/-! ## Requests -/

namespace SameState

variable {left right : Machine}

theorem fontProgram?_eq (same : SameState left right) :
    left.fontProgram? = right.fontProgram? := by
  rw [fontProgram?, fontProgram?, same.decodedFontProgram, same.font]

theorem agree_enter (same : SameState left right) (request : Request) :
    Agree (fun _ => False) 0 SameState (request.enter left) (request.enter right) := by
  cases request with
  | executeProgram program => exact .ok _ { same with }
  | executeBytes bytes =>
      rw [Request.enter]
      cases decode bytes with
      | ok program => exact .ok _ { same with }
      | error malformation => exact .error_same _ same
  | prime =>
      rw [Request.enter_prime, Request.enter_prime, ← same.primed, ← same.font]
      split
      · exact .ok _ same
      · split
        · exact .ok _ { same with primed := rfl, font := rfl }
        · split
          · exact .ok _ { same with primed := rfl, font := rfl }
          · split
            · exact .ok _ { same with primed := rfl, font := rfl }
            · exact .error_same _ { same with primed := rfl, font := rfl }
  | loadFontProgram =>
      rw [Request.enter_loadFontProgram, Request.enter_loadFontProgram, ← same.fontProgramLoaded,
        ← same.fontProgram?_eq]
      split
      · exact .ok _ same
      · split
        · exact .ok _ { same with fontProgramLoaded := rfl }
        · exact .ok _
            { same with decodedFontProgram := rfl, fontProgramLoaded := rfl, inFontProgram := rfl }
        · exact .error_same _ { same with fontProgramLoaded := rfl }

end SameState

/-- The machines are in the same state after the same number of steps. -/
structure InStep (left right : Machine) : Prop extends SameState left right where
  steps : left.steps = right.steps

section

variable {limits : Limits} {levels : Nat} {inside definitions : Bool} {left right : Machine}

theorem Correspondence.Holds.inStep
    (holds : (shift limits 0 0).Holds definitions ⟨levels, 0, inside⟩ left right) :
    InStep left right :=
  { holds.sameState with steps := holds.related.steps }

theorem InStep.holds {before : Machine} (inStep : InStep left right) (rest : before.AtRest)
    (prepares : Prepares before right) :
    (shift right.limits 0 0).Holds false ⟨levels, 0, right.inFontProgram⟩ left right where
  related :=
    { leftLimits := inStep.limits
      rightLimits := rfl
      unlimited := .inl rfl
      memory := inStep.memory
      leftDepth := (inStep.callDepth.trans prepares.callDepth).trans rest.callDepth
      rightDepth := prepares.callDepth.trans rest.callDepth
      steps := inStep.steps }
  font := inStep.font
  functions := inStep.functions
  capture := inStep.capture
  decodedFontProgram := inStep.decodedFontProgram
  fontProgramLoaded := inStep.fontProgramLoaded
  primed := inStep.primed
  leftInFontProgram := inStep.inFontProgram
  rightInFontProgram := rfl
  closed _ := (inStep.capture.trans prepares.capture).trans rest.capture
  recorded _ captured :=
    nomatch captured.symm.trans ((inStep.capture.trans prepares.capture).trans rest.capture)
  bodies id body found := by
    rw [inStep.functions, prepares.functions] at found
    exact ⟨rest.bodies id body found, fun _ _ => trivial⟩
  keeps :=
    (prepares.keeps rest.keeps).of_eq inStep.font inStep.fontProgramLoaded
      inStep.decodedFontProgram
  fontProgram _ program _ _ := shift_admitsProgram _ _ _ program

theorem InStep.agree_runOutermost {before : Machine} (inStep : InStep left right)
    (rest : before.AtRest) (prepares : Prepares before right) (purpose : Purpose)
    (program : Program) :
    Agree (shift right.limits 0 0).excused 0 InStep (runOutermost purpose program left)
      (runOutermost purpose program right) := by
  have holds : (shift right.limits 0 0).Holds false ⟨0, 0, right.inFontProgram⟩ left right :=
    inStep.holds rest prepares
  have ran := runsAgree_run 0 right.inFontProgram true program left right
    (shift_admitsProgram _ _ _ program) holds.weaken
  have whole := (Holds.runWhole ran).weaken fun _ _ kept => kept.inStep
  cases purpose with
  | program => exact whole
  | controlValueProgram => exact .within whole
  | function id more => exact ran.weaken fun _ _ kept => kept.inStep
  | fontProgram =>
      rw [runOutermost, finishFontProgram]
      refine .bind (.within (.ensuring whole fun _ _ same => { same with inFontProgram := rfl }))
        (fun _ _ kept => kept) ?_
      intro _ _ _ done
      exact .get_bind (.modify { done with })

end

theorem SameState.agree_perform {left right : Machine} (same : SameState left right)
    (rest : right.AtRest) (request : Request) :
    Agree (fun _ => False) 0
      (fun leftAfter rightAfter => SameState leftAfter rightAfter ∧
        (request.Runs left → leftAfter.steps = rightAfter.steps))
      (request.perform left) (request.perform right) := by
  have entered := same.agree_enter request
  have prepares := request.prepares_enter right
  have leftEnters := request.enters left
  have rightEnters := request.enters right
  rw [Request.perform_eq, bind_apply, bind_apply, Request.Runs]
  generalize request.enter left = leftOutcome at entered leftEnters ⊢
  generalize request.enter right = rightOutcome at entered prepares rightEnters ⊢
  cases entered with
  | excuse impossible => exact impossible.elim
  | error failure same => exact .error failure ⟨same, fun ⟨_, _, runs⟩ => nomatch runs⟩
  | ok entry same =>
      cases entry with
      | none => exact .ok _ ⟨same, fun ⟨_, _, runs⟩ => nomatch runs⟩
      | some active =>
          have inStep : InStep _ _ :=
            { same with steps := (leftEnters.steps_eq).trans rightEnters.steps_eq.symm }
          exact ((inStep.agree_runOutermost rest prepares active.purpose active.program).strict
            (shift_strict _ _) _).weaken fun _ _ kept => ⟨kept.toSameState, fun _ => kept.steps⟩

/-! ## Calls -/

/-- What a call is answered with. A failure is the whole of its causes. -/
def Call.reply (call : Call) (machine : Machine) : Except Failure Reply :=
  match call.perform machine with
  | .ok reply _ => .ok reply
  | .error failure _ => .error failure

def replies (machine : Machine) : List Call → List (Except Failure Reply)
  | [] => []
  | call :: calls => call.reply machine :: (machine.afterCall call).replies calls

theorem Agree.reply_eq {related : Machine → Machine → Prop} {call : Call} {left right : Machine}
    (agree : Agree (fun _ => False) 0 related (call.perform left) (call.perform right)) :
    call.reply left = call.reply right := by
  rw [Call.reply, Call.reply]
  generalize call.perform left = leftOutcome at agree ⊢
  generalize call.perform right = rightOutcome at agree ⊢
  cases agree with
  | ok reply related => rfl
  | error failure related => rw [Failure.later_zero]
  | excuse impossible => exact impossible.elim

namespace SameState

variable {left right : Machine}

theorem agree_call (same : SameState left right) (rest : right.AtRest) (call : Call) :
    Agree (fun _ => False) 0 SameState (call.perform left) (call.perform right) := by
  rcases call.request_or_memoryAction with ⟨request, rfl⟩ | ⟨action, _, performs⟩
  · rw [request.perform_call]
    exact .bind ((same.agree_perform rest request).weaken fun _ _ kept => kept.1)
      (fun _ _ kept => kept) fun _ _ _ same => .ok _ same
  · rw [performs]
    unfold Machine.onMemory
    rw [same.memory]
    cases action right.memory with
    | ok reply memory => exact .ok _ { same with memory := rfl }
    | error cause memory => exact .error_same _ { same with memory := rfl }

theorem afterCall (same : SameState left right) (rest : right.AtRest) (call : Call) :
    SameState (left.afterCall call) (right.afterCall call) := by
  rw [afterCall_eq, afterCall_eq]
  exact (same.agree_call rest call).machines fun _ => id

theorem afterCalls (same : SameState left right) (rest : right.AtRest) (calls : List Call) :
    SameState (left.afterCalls calls) (right.afterCalls calls) := by
  induction calls generalizing left right with
  | nil => exact same
  | cons call calls induction => exact induction (same.afterCall rest call) (rest.afterCall call)

theorem replies_eq (same : SameState left right) (rest : right.AtRest) (calls : List Call) :
    left.replies calls = right.replies calls := by
  induction calls generalizing left right with
  | nil => rfl
  | cons call calls induction =>
      rw [replies, replies, (same.agree_call rest call).reply_eq,
        induction (same.afterCall rest call) (rest.afterCall call)]

theorem steps_afterCall (same : SameState left right) (rest : right.AtRest) (request : Request)
    (runs : request.Runs left) :
    (left.afterCall request.call).steps = (right.afterCall request.call).steps := by
  rw [afterCall_request, afterCall_request]
  exact ((same.agree_perform rest request).machines fun _ => id).2 runs

end SameState

/-! ## What tells machines apart -/

/-- The machines cannot be told apart by what they hold between two calls. -/
structure Indistinguishable (left right : Machine) : Prop where
  stack : left.memory.stack.toList = right.memory.stack.toList
  storage : ∀ location, left.memory.storage.get? location = right.memory.storage.get? location
  controlValues : left.memory.controlValues.values = right.memory.controlValues.values
  functions : ∀ id, left.functions.get? id = right.functions.get? id
  fontProgramLoaded : left.fontProgramLoaded = right.fontProgramLoaded
  primed : left.primed = right.primed

theorem SameState.snapshot_eq {left right : Machine} (same : SameState left right) :
    left.snapshot = right.snapshot := by
  rw [snapshot, snapshot, same.memory, same.functions]

theorem SameState.indistinguishable {left right : Machine} (same : SameState left right) :
    Indistinguishable left right where
  stack := by rw [same.memory]
  storage _ := by rw [same.memory]
  controlValues := by rw [same.memory]
  functions _ := by rw [same.functions]
  fontProgramLoaded := same.fontProgramLoaded
  primed := same.primed

theorem retains_afterCalls (limits : Limits) (font : Option FontTables) (past : List Call) :
    Retains (fun memory => memory.stack.maxDepth = limits.maxStackDepth) (opened limits font)
      ((opened limits font).afterCalls past) := by
  refine Retains.afterCalls (Memory.maintained_stack (OperandStack.maintained_maxDepth _))
    (resting_opened limits font).rest (.refl ?_) past
  cases font with
  | none => rfl
  | some font => rfl

theorem Indistinguishable.memory_eq {left right : Machine} (alike : Indistinguishable left right)
    (maxDepth : left.memory.stack.maxDepth = right.memory.stack.maxDepth) :
    left.memory = right.memory := by
  have values := List.reverse_inj.mp alike.stack
  have storage := Storage.ext_get? alike.storage
  have controlValues := alike.controlValues
  generalize left.memory = leftMemory at *
  generalize right.memory = rightMemory at *
  rcases leftMemory with ⟨⟨_, _⟩, _, ⟨_⟩⟩
  rcases rightMemory with ⟨⟨_, _⟩, _, ⟨_⟩⟩
  cases values
  cases maxDepth
  cases storage
  cases controlValues
  rfl

theorem Indistinguishable.sameState {limits : Limits} {font : Option FontTables}
    {pastLeft pastRight : List Call}
    (alike : Indistinguishable ((opened limits font).afterCalls pastLeft)
      ((opened limits font).afterCalls pastRight)) :
    SameState ((opened limits font).afterCalls pastLeft)
      ((opened limits font).afterCalls pastRight) := by
  have opened := (resting_opened limits font).rest
  have leftRest := opened.afterCalls pastLeft
  have rightRest := opened.afterCalls pastRight
  have left := retains_afterCalls limits font pastLeft
  have right := retains_afterCalls limits font pastRight
  have font := left.font.trans right.font.symm
  exact
    { limits := left.limits.trans right.limits.symm
      font
      memory := alike.memory_eq (left.memory.trans right.memory.symm)
      functions := FunctionTable.ext_get? alike.functions
      capture := leftRest.capture.trans rightRest.capture.symm
      decodedFontProgram :=
        leftRest.keeps.decodedFontProgram_eq rightRest.keeps font alike.fontProgramLoaded
      fontProgramLoaded := alike.fontProgramLoaded
      inFontProgram := leftRest.inFontProgram.trans rightRest.inFontProgram.symm
      primed := alike.primed
      callDepth := leftRest.callDepth.trans rightRest.callDepth.symm }

/-- Two machines have served the same font with the same limits, with any calls in the past and
whatever came of them. If they cannot be told apart now, they keep the same of the font program,
which is what it decodes to if it has been loaded and nothing if it has not, and a run that finds
nothing kept of it is the same run. Every further sequence of calls is then answered in the same way
on both and leaves the same snapshot, they cannot be told apart afterwards, and a program takes as
many steps on the one as on the other. -/
theorem indistinguishable_afterCalls (limits : Limits) (font : Option FontTables)
    (pastLeft pastRight : List Call)
    (alike : Indistinguishable ((opened limits font).afterCalls pastLeft)
      ((opened limits font).afterCalls pastRight)) (calls : List Call) :
    let left := (opened limits font).afterCalls pastLeft
    let right := (opened limits font).afterCalls pastRight
    (left.KeepsFontProgram ∧ right.KeepsFontProgram ∧
        left.decodedFontProgram = right.decodedFontProgram ∧
        ∀ run, runFontProgram run { left with decodedFontProgram := none } =
          runFontProgram run left) ∧
      left.replies calls = right.replies calls ∧
      (left.afterCalls calls).snapshot = (right.afterCalls calls).snapshot ∧
      Indistinguishable (left.afterCalls calls) (right.afterCalls calls) ∧
      ∀ request : Request, request.Runs (left.afterCalls calls) →
        ((left.afterCalls calls).afterCall request.call).steps =
          ((right.afterCalls calls).afterCall request.call).steps := by
  intro left right
  have same : SameState left right := alike.sameState
  have opened := (resting_opened limits font).rest
  have keeps : left.KeepsFontProgram := (opened.afterCalls pastLeft).keeps
  have rest : right.AtRest := opened.afterCalls pastRight
  have later := same.afterCalls rest calls
  exact ⟨⟨keeps, rest.keeps, same.decodedFontProgram, keeps.runFontProgram_forget⟩,
    same.replies_eq rest calls, later.snapshot_eq, later.indistinguishable,
    later.steps_afterCall (rest.afterCalls calls)⟩

/-- On the left, the font program was run for a call that failed, and a definition was left open. -/
theorem indistinguishable_afterCalls_failed :
    let font : FontTables := { fontProgram := some [0xB0, 5, 0x2C, 0x20, 0x2D] }
    let left := (opened {} (some font)).afterCalls
      [.executeBytes [0xB0, 9, 0x2B], .executeBytes [0xB0, 7, 0x2C]]
    let right := (opened {} (some font)).afterCalls [.loadFontProgram]
    let request := Request.executeProgram [.push (.ofBytes [3, 5]), .control .call]
    Indistinguishable left right ∧
      right.decodedFontProgram = some [.push (.ofBytes [5]), .control .beginFunction,
        .stack .dup, .control .endFunction] ∧
      left.decodedFontProgram = right.decodedFontProgram ∧
      left.replies [request.call] = right.replies [request.call] ∧
      (left.afterCalls [request.call]).snapshot = (right.afterCalls [request.call]).snapshot ∧
      Indistinguishable (left.afterCalls [request.call]) (right.afterCalls [request.call]) ∧
      ((left.afterCalls [request.call]).afterCall request.call).steps =
        ((right.afterCalls [request.call]).afterCall request.call).steps := by
  intro font left right request
  have storage : left.memory.storage = right.memory.storage := by decide +kernel
  have functions : left.functions = right.functions := by decide +kernel
  have alike : Indistinguishable left right :=
    { stack := by decide +kernel
      storage := fun _ => by rw [storage]
      controlValues := by decide +kernel
      functions := fun _ => by rw [functions]
      fontProgramLoaded := by decide +kernel
      primed := by decide +kernel }
  have followed := indistinguishable_afterCalls {} (some font)
    [.executeBytes [0xB0, 9, 0x2B], .executeBytes [0xB0, 7, 0x2C]] [.loadFontProgram] alike
    [request.call]
  have runs : ∀ machine, request.Runs machine := fun _ => ⟨_, _, rfl⟩
  rcases followed with ⟨⟨_, _, kept, _⟩, answers, snapshots, alikeAfter, sameSteps⟩
  exact ⟨alike, by decide +kernel, kept, answers, snapshots, alikeAfter, sameSteps request (runs _)⟩

end Hinting.Machine
