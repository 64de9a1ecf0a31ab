import Hinting.Proofs.Machine.Levels
import Hinting.Proofs.Program.Expansion
import Hinting.Proofs.Stepping.Phases

/-!
Functions that are looked for in the font program.

A call of a function that is not defined runs the font program in its midst. That comes to the same
as loading the font program first, and then running the body that it has defined.
-/

namespace Hinting.Machine

open Correspondence

/-- Load the font program, and then run the function as a program. -/
def executeLoaded (id : UInt32) : MachineAction Unit := do
  loadFontProgram
  match (← get).functions.get? id with
  | some body => executeProgram body
  | none => fault (.unresolvedFunction id)

/-! ## The font program in the midst of a call -/

theorem runsAgree_run_below (limits : Limits) (more : Nat) :
    (spareShift limits more 1).RunsAgree (limits.maxCallDepth + 1)
      (runNested (limits.maxCallDepth + 1)) run := by
  intro depth inside definitions program left right admitted holds
  have levels : right.nestingLevels = limits.maxCallDepth + 1 + 1 := by
    rw [nestingLevels, holds.related.1.rightLimits]
  rw [run, get_bind_apply, levels]
  exact runsAgree_runNested _ depth inside definitions program left right admitted holds

/-- The left machine is in the state of the right one, which is at rest. -/
structure SameRest (limits : Limits) (left right : Machine) : Prop where
  same : SameState left right
  rest : right.AtRest
  limits : right.limits = limits

theorem SameRest.closed {limits : Limits} {left right : Machine}
    (same : SameRest limits left right) : SameClosed left right :=
  ⟨same.same, same.same.capture.trans same.rest.capture⟩

theorem SameRest.of_holds {limits : Limits} {more spare levels : Nat} {left right : Machine}
    (holds : (spareShift limits more spare).Holds false ⟨levels, 0, false⟩ left right) :
    SameRest limits left right := by
  have shifted : (shift limits 0 more).Holds false ⟨levels, 0, false⟩ left right :=
    { holds with related := holds.related.1 }
  exact ⟨shifted.sameState, shifted.atRest.of_sameState shifted.sameState,
    shifted.related.rightLimits⟩

/-- Below a call there is one level less for the font program, which is enough. -/
theorem AtRest.endsAlike_runFontProgram {excused : Fault → Prop} {left right : Machine}
    (rest : right.AtRest) (unlimited : right.limits.maxSteps = none)
    (same : SameState left right) :
    EndsAlike excused (fun (_ _ : Unit) => SameRest right.limits) (SameRest right.limits)
      (runFontProgram (runNested (right.limits.maxCallDepth + 1)) left)
      (runFontProgram run { right with steps := 0 }) := by
  have begun : (shift right.limits 0 left.steps).Holds false
      ⟨right.limits.maxCallDepth + 2, 0, false⟩ left { right with steps := 0 } :=
    rest.resetSteps.holds { same with } (Nat.zero_add _).symm (.inr unlimited) _
  have holds : (spareShift right.limits left.steps 1).Holds false
      ⟨right.limits.maxCallDepth + 2, 0, false⟩ left { right with steps := 0 } :=
    { begun with related := ⟨begun.related, Nat.zero_le _, Nat.le_refl _⟩ }
  have ran := holds.runFontProgram (runsAgree_run_below right.limits left.steps)
  exact ran.endsAlike
    (fun cause excuse => absurd excuse (shift_strict right.limits left.steps cause))
    (fun _ _ _ => .of_holds) fun _ _ => .of_holds

/-! ## Calls -/

theorem loadFontProgram_apply {machine : Machine}
    (unloaded : machine.fontProgramLoaded = false) :
    loadFontProgram machine = runFontProgram run { machine with steps := 0 } := by
  rw [loadFontProgram, get_bind_apply, if_neg (by simp [unloaded])]
  rfl

theorem SameRest.endsAlike_callDefined {limits : Limits} {left right : Machine}
    (same : SameRest limits left right) (unlimited : limits.maxSteps = none) (id : UInt32) :
    EndsAlike ExceedsCallDepth (fun (_ _ : Unit) => SameClosed) SameClosed
      (callDefined (runNested (limits.maxCallDepth + 1)) ⟨id, 1⟩ left)
      ((match right.functions.get? id with
        | some body => executeProgram body
        | none => fault (.unresolvedFunction id) : MachineAction Unit) right) := by
  obtain rfl := same.limits
  cases known : right.functions.get? id with
  | none =>
      rw [callDefined, bind_apply, definedBody_apply, same.same.functions, known]
      exact .error rfl same.closed
  | some body =>
      have knownLeft : (left.functions.get? id).isSome = true := by
        rw [same.same.functions, known]
        rfl
      have called : EndsAlike ExceedsCallDepth (fun (_ _ : Unit) => SameClosed) SameClosed
          (outermostCall right.limits id 1 left) (executeProgram body right) :=
        (same.rest.endsAlike_callFunction unlimited same.same known 1).once
          fun _ _ _ _ ended => ended.1
      rwa [outermostCall, callFunction_apply _ ⟨id, 1⟩, if_pos (by simp [knownLeft])] at called

theorem AtRest.endsAlike_callUndefined {left right : Machine} (rest : right.AtRest)
    (unlimited : right.limits.maxSteps = none) (unloaded : right.fontProgramLoaded = false)
    (same : SameState left right) {id : UInt32} (unknown : right.functions.get? id = none) :
    EndsAlike ExceedsCallDepth (fun (_ _ : Unit) => SameClosed) SameClosed
      (outermostCall right.limits id 1 left) (executeLoaded id right) := by
  have unknownLeft : ¬ ((left.functions.get? id).isSome || left.inFontProgram) = true := by
    rw [same.functions, unknown, same.inFontProgram, rest.inFontProgram]
    exact Bool.false_ne_true
  have resolving : SameState { left with journal := .resolving id :: left.journal } right :=
    { same with }
  have loaded : EndsAlike ExceedsCallDepth (fun (_ _ : Unit) => SameRest right.limits)
      (SameRest right.limits) _ (runFontProgram run { right with steps := 0 }) :=
    rest.endsAlike_runFontProgram unlimited resolving
  rw [← loadFontProgram_apply unloaded] at loaded
  rw [outermostCall, callFunction_apply _ ⟨id, 1⟩, if_neg unknownLeft, executeLoaded]
  refine (loaded.weaken (fun _ _ _ _ ended => ended) fun _ _ ended => ended.closed).bind ?_
  intro _ _ leftLoaded rightLoaded ended
  rw [get_bind_apply]
  exact ended.endsAlike_callDefined unlimited id

/-- As long as the font program has not been run, a call of a function that is not defined ends like
loading the font program and running the function behind it. -/
theorem AtRest.executeProgram_call_unloaded {machine popped : Machine} (rest : machine.AtRest)
    (unlimited : machine.limits.maxSteps = none) (unloaded : machine.fontProgramLoaded = false)
    {idValue : Value} {id : UInt32}
    (pops : onStack OperandStack.pop machine = .ok idValue popped)
    (index : idValue.toIndex .function = .ok id) (unknown : machine.functions.get? id = none) :
    EndsAlike ExceedsCallDepth (fun _ _ => SameState) SameState
      (executeProgram [.control .call] machine) (executeLoaded id popped) := by
  have whole : EndsAlike ExceedsCallDepth (fun (_ _ : Unit) => SameClosed) SameClosed
      (executeProgram [.control .call] machine) (executeLoaded id popped) := by
    refine rest.endsAlike_single unlimited (fun fetched same _ => ?_)
      (fun _ _ _ ended => ended.2) fun _ _ ended => ended.2
    rcases same.onMemory pops with ⟨popsFetched, samePopped⟩
    have kept := ((SameState.refl machine).onMemory pops).2
    rw [execute, control_call popsFetched index, kept.limits]
    refine EndsAlike.map_left ?_ fun _ _ _ _ ended => ended
    refine (rest.of_onMemory pops).endsAlike_callUndefined (kept.limits ▸ unlimited) ?_ samePopped
      ?_
    · rw [← kept.fontProgramLoaded, unloaded]
    · rw [← kept.functions, unknown]
  exact whole.weaken (fun _ _ _ _ ended => ended.1) fun _ _ ended => ended.1

/-- The font program defines the function that the call asks for, which duplicates the nine. -/
theorem executeProgram_call_unloaded_dup :
    let machine : Machine :=
      { withFont {} { fontProgram := some [0xB0, 5, 0x2C, 0x20, 0x2D] } with
        memory := { stack := ⟨[.int 5, .int 9], 4096⟩ } }
    let popped : Machine := { machine with memory := { stack := ⟨[.int 9], 4096⟩ } }
    EndsAlike ExceedsCallDepth (fun _ _ => SameState) SameState
        (executeProgram [.control .call] machine) (executeLoaded 5 popped) ∧
      (Outcome.machine (executeProgram [.control .call] machine)).memory.stack.values =
        [.int 9, .int 9] := by
  intro machine popped
  have rest : machine.AtRest := (atRest_withFont _ _).withMemory _
  exact ⟨rest.executeProgram_call_unloaded rfl rfl rfl rfl (by decide), by decide +kernel⟩

end Hinting.Machine
