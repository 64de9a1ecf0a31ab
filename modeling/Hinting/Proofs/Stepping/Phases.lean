import Hinting.Proofs.Stepping.Entering

/-!
Runs put together from the parts that small steps are made of.

An instruction is an attempt and then perhaps a call. A call enters the function body, perhaps after
a whole run of the font program.
-/

namespace Hinting.Machine

/-! ## Instructions -/

def settle (call : UInt32 → Nat → MachineAction Unit) : Effect → MachineAction Nat
  | .goOn pass => pure pass
  | .call invocation => do
      call invocation.id invocation.count
      return 0

theorem execute_eq (call : UInt32 → Nat → MachineAction Unit) (rest : Program)
    (instruction : Instruction) :
    execute call rest instruction = carryOut rest instruction >>= settle call := by
  have withoutCall : ∀ action : MachineAction Nat,
      (do return .goOn (← action) : MachineAction Effect) >>= settle call = action := by
    intro action
    simp [settle]
  cases instruction with
  | control operation =>
      cases operation with
      | call => simp [execute, control, carryOut, settle]
      | loopCall =>
          simp only [execute, control, carryOut, bind_assoc, pure_bind]
          refine bind_congr fun _ => bind_congr fun id => bind_congr fun count =>
            bind_congr fun _ => ?_
          split
          · rfl
          · rfl
      | _ => exact (withoutCall _).symm
  | _ => exact (withoutCall _).symm

theorem within_bind (context : Context) (action : MachineAction α) (next : α → MachineAction β) :
    within context (action >>= next) =
      within context action >>= fun result => within context (next result) := by
  funext machine
  rw [bind_apply]
  unfold within
  rw [bind_apply]
  cases action machine with
  | ok result after => rfl
  | error failure after => rfl

/-- Fetching an instruction is a step that counts, an attempt, and perhaps a call. -/
theorem step_eq (call : UInt32 → Nat → MachineAction Unit) (index : Nat)
    (instruction : Instruction) (rest : Program) :
    step call index instruction rest =
      fetch index instruction rest >>= fun effect =>
        within (.instruction instruction.mnemonic index) (settle call effect) := by
  rw [step, fetch, bind_assoc]
  refine bind_congr fun _ => ?_
  rw [attempt, bind_assoc]
  refine bind_congr fun machine => ?_
  cases machine.capture with
  | some capture =>
      dsimp only
      rw [bind_assoc]
      rfl
  | none =>
      dsimp only
      rw [bind_assoc, execute_eq, within_bind]

/-! ## Calls -/

def leaveFunction (machine : Machine) : Machine :=
  { machine with callDepth := machine.callDepth - 1 }

/-- What is left of a call whose body is to be entered `more` times. -/
def finishCall (run : Program → MachineAction Unit) (id : UInt32) (more : Nat) (body : Program) :
    MachineAction Unit :=
  within (.function id) (ensuring (repeatBody run body more) leaveFunction)

def callBody (run : Program → MachineAction Unit) (invocation : Invocation) (body : Program) :
    MachineAction Unit := do
  let _ ← enter invocation body
  finishCall run invocation.id invocation.count body

def callDefined (run : Program → MachineAction Unit) (invocation : Invocation) :
    MachineAction Unit := do
  callBody run invocation (← definedBody invocation.id)

theorem runFontProgram_eq (run : Program → MachineAction Unit) :
    runFontProgram run = (do
      match ← enterFontProgram with
      | none => pure ()
      | some active => finishFontProgram run active.program) := by
  rw [runFontProgram, enterFontProgram, bind_assoc]
  refine bind_congr fun found => ?_
  cases found with
  | none => rfl
  | some program => rfl

theorem resolve_apply (run : Program → MachineAction Unit) (id : UInt32) (machine : Machine) :
    resolve run id machine =
      if (machine.functions.get? id).isSome || machine.inFontProgram then definedBody id machine
      else
        (do runFontProgram run; definedBody id)
          { machine with journal := .resolving id :: machine.journal } := by
  rw [resolve, get_bind_apply]
  cases known : machine.functions.get? id with
  | some body =>
      rw [definedBody, get_bind_apply, known]
      rfl
  | none =>
      dsimp only
      split
      · next inside =>
          rw [if_pos (by simp [inside])]
          rfl
      · next outside =>
          rw [if_neg (by simp [outside])]
          rfl

theorem callFunction_eq (run : Program → MachineAction Unit) (invocation : Invocation) :
    callFunction run invocation.id invocation.count =
      resolve run invocation.id >>= callBody run invocation := by
  rw [callFunction]
  refine bind_congr fun body => ?_
  rw [callBody, enter, bind_assoc]
  refine bind_congr fun machine => ?_
  split
  · rfl
  · rfl

theorem finishCall_succ (run : Program → MachineAction Unit) (id : UInt32) (more : Nat)
    (body : Program) (machine : Machine) :
    finishCall run id (more + 1) body machine =
      match (do tick; run body) machine with
      | .ok _ after => finishCall run id more body after
      | .error failure after => .error (failure.within (.function id)) after.leaveFunction := by
  have entered : repeatBody run body (more + 1) =
      (do tick; run body) >>= fun _ => repeatBody run body more :=
    (bind_assoc _ _ _).symm
  rw [finishCall, within, ensuring, entered, bind_apply]
  cases (do tick; run body) machine with
  | ok result after => rfl
  | error failure after => rfl

theorem finishFontProgram_apply (run : Program → MachineAction Unit) (program : Program)
    (machine : Machine) :
    finishFontProgram run program machine =
      match runWhole run program machine with
      | .ok _ after => .ok () after.leaveFontProgram
      | .error failure after =>
          .error (failure.within .fontProgram) { after with inFontProgram := false } := by
  rw [finishFontProgram, bind_apply, within, ensuring]
  cases runWhole run program machine with
  | ok result after => rfl
  | error failure after => rfl

theorem callFunction_apply (run : Program → MachineAction Unit) (invocation : Invocation)
    (machine : Machine) :
    callFunction run invocation.id invocation.count machine =
      if (machine.functions.get? invocation.id).isSome || machine.inFontProgram then
        callDefined run invocation machine
      else
        (do runFontProgram run; callDefined run invocation)
          { machine with journal := .resolving invocation.id :: machine.journal } := by
  rw [callFunction_eq, bind_apply, resolve_apply]
  by_cases known : (machine.functions.get? invocation.id).isSome || machine.inFontProgram
  · rw [if_pos known, if_pos known, callDefined, bind_apply]
  · rw [if_neg known, if_neg known, ← bind_apply, bind_assoc]
    rfl

end Hinting.Machine
