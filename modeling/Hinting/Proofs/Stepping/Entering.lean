import Hinting.Proofs.Stepping.Progress

/-!
How programs are entered, and how a failure leaves them, as functions of the machine.
-/

namespace Hinting.Machine

/-! ## Entering -/

theorem enter_apply (invocation : Invocation) (body : Program) (machine : Machine) :
    enter invocation body machine =
      if machine.limits.maxCallDepth ≤ machine.callDepth then
        .error { cause := .callDepthExceeded machine.limits.maxCallDepth } machine
      else
        .ok ⟨.function invocation.id invocation.count, body, body.length⟩
          { machine with callDepth := machine.callDepth + 1 } := by
  rw [enter, get_bind_apply]
  split
  · rfl
  · rfl

theorem definedBody_apply (id : UInt32) (machine : Machine) :
    definedBody id machine =
      match machine.functions.get? id with
      | some body => .ok body machine
      | none => .error { cause := .unresolvedFunction id } machine := by
  rw [definedBody, get_bind_apply]
  cases machine.functions.get? id with
  | some body => rfl
  | none => rfl

theorem enterDefined_apply (invocation : Invocation) (machine : Machine) :
    enterDefined invocation machine =
      match machine.functions.get? invocation.id with
      | some body => enter invocation body machine
      | none => .error { cause := .unresolvedFunction invocation.id } machine := by
  rw [enterDefined, bind_apply, definedBody_apply]
  cases machine.functions.get? invocation.id with
  | some body => rfl
  | none => rfl

theorem enterFontProgram_apply (machine : Machine) :
    enterFontProgram machine =
      match machine.fontProgram? with
      | .ok none => .ok none machine
      | .ok (some program) =>
          .ok (some ⟨.fontProgram, program, 0⟩) (machine.startFontProgram program)
      | .error malformation =>
          .error ⟨[.fontProgramDecoding], .malformedProgram malformation⟩ machine := by
  rw [enterFontProgram, bind_apply, decodeFontProgram_apply]
  cases machine.fontProgram? with
  | error malformation => rfl
  | ok found =>
      cases found with
      | none => rfl
      | some program => rfl

theorem invoke_apply (invocation : Invocation) (machine : Machine) :
    invoke invocation machine =
      if (machine.functions.get? invocation.id).isSome || machine.inFontProgram then
        enterDefined invocation machine
      else
        let resolving :=
          { machine with journal := .resolving invocation.id :: machine.journal }
        match machine.fontProgram? with
        | .ok none => enterDefined invocation resolving
        | .ok (some program) =>
            .ok ⟨.fontProgram, program, 0⟩ (resolving.startFontProgram program)
        | .error malformation =>
            .error ⟨[.fontProgramDecoding], .malformedProgram malformation⟩ resolving := by
  have same : fontProgram? { machine with journal := .resolving invocation.id :: machine.journal } =
      machine.fontProgram? := rfl
  rw [invoke, get_bind_apply]
  split
  · rfl
  · change (enterFontProgram >>= _) _ = _
    rw [bind_apply, enterFontProgram_apply, same]
    cases machine.fontProgram? with
    | error malformation => rfl
    | ok found =>
        cases found with
        | none => rfl
        | some program => rfl

/-! ## Leaving in failure -/

theorem failsWith_fail (purpose : Purpose) (callers : List Caller) (failure : Failure)
    (machine : Machine) : FailsWith failure.cause (fail purpose callers failure machine) := by
  induction callers generalizing purpose failure machine with
  | nil =>
      refine ⟨_, _, rfl, ?_⟩
      cases purpose with
      | _ => rfl
  | cons caller callers induction =>
      have fails := induction caller.purpose ((purpose.around failure).within caller.site)
        (purpose.abandon machine)
      cases purpose with
      | _ => exact fails

/-! ## What entering keeps -/

/-- What holds of a machine has nothing to do with the programs that are active on it, nor with the
font program being loaded. -/
structure IgnoresNesting (holds : Machine → Prop) : Prop where
  nesting (machine : Machine) (callDepth : Nat) (inFontProgram : Bool) (journal : List Event) :
    holds machine → holds { machine with callDepth, inFontProgram, journal }
  load {machine : Machine} {program : Program}
    (found : machine.fontProgram? = .ok (some program)) :
    holds machine →
      holds { machine with decodedFontProgram := some program, fontProgramLoaded := true }

namespace IgnoresNesting

variable {holds : Machine → Prop} (ignores : IgnoresNesting holds)

include ignores

theorem enter (invocation : Invocation) (body : Program) :
    Maintains holds (enter invocation body) := by
  intro machine now
  rw [enter_apply]
  split
  · exact now
  · exact ignores.nesting machine _ _ _ now

theorem enterDefined (invocation : Invocation) : Maintains holds (enterDefined invocation) := by
  intro machine now
  rw [enterDefined_apply]
  split
  · exact ignores.enter invocation _ machine now
  · exact now

theorem startFontProgram {machine : Machine} {program : Program}
    (found : machine.fontProgram? = .ok (some program)) (now : holds machine) :
    holds (machine.startFontProgram program) :=
  ignores.nesting _ machine.callDepth true _ (ignores.load found now)

theorem invoke (invocation : Invocation) : Maintains holds (invoke invocation) := by
  intro machine now
  have resolving := ignores.nesting machine machine.callDepth machine.inFontProgram
    (.resolving invocation.id :: machine.journal) now
  rw [invoke_apply]
  split
  · exact ignores.enterDefined invocation machine now
  · dsimp only
    split
    · exact ignores.enterDefined invocation _ resolving
    · next found => exact ignores.startFontProgram found resolving
    · exact resolving

end IgnoresNesting

end Hinting.Machine
