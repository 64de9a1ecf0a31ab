import Hinting.Proofs.Session.History
import Hinting.Proofs.Stepping.Retention

/-!
Calls: those that run programs, and those that change memory.

What lasts all along a run lasts all along a session.
-/

namespace Hinting

namespace Machine

/-! ## The two kinds of calls -/

def Request.call : Request → Call
  | executeProgram program => .executeProgram program
  | executeBytes bytes => .executeBytes bytes
  | prime => .prime
  | loadFontProgram => .loadFontProgram

theorem Request.perform_call (request : Request) :
    request.call.perform = Reply.nothingAfter request.perform := by
  cases request with
  | _ => rfl

/-- What a call does to memory, if it runs no program. -/
def Call.memoryAction? : Call → Option (MemoryAction Reply)
  | onStack call => some (Memory.onStack call.perform)
  | writeStorage location value =>
      some (Reply.nothingAfter (Memory.writeStorage location value))
  | setControlValue index value =>
      some (Reply.nothingAfter (Memory.setControlValue index value))
  | _ => none

theorem onMemory_nothingAfter (action : MemoryAction Unit) :
    onMemory (Reply.nothingAfter action) = Reply.nothingAfter (onMemory action) := by
  funext machine
  rw [onMemory, Reply.nothingAfter, Reply.nothingAfter, bind_apply, bind_apply, onMemory]
  cases action machine.memory with
  | ok result memory => rfl
  | error cause memory => rfl

theorem Call.perform_of_memoryAction? {call : Call} {action : MemoryAction Reply}
    (named : call.memoryAction? = some action) : call.perform = Machine.onMemory action := by
  cases call with
  | onStack call =>
      cases named
      rfl
  | writeStorage location value =>
      cases named
      exact (onMemory_nothingAfter _).symm
  | setControlValue index value =>
      cases named
      exact (onMemory_nothingAfter _).symm
  | _ => cases named

theorem Call.request_or_memoryAction (call : Call) :
    (∃ request : Request, call = request.call) ∨
      ∃ action, call.memoryAction? = some action ∧ call.perform = Machine.onMemory action := by
  cases call with
  | executeProgram program => exact .inl ⟨.executeProgram program, rfl⟩
  | executeBytes bytes => exact .inl ⟨.executeBytes bytes, rfl⟩
  | prime => exact .inl ⟨.prime, rfl⟩
  | loadFontProgram => exact .inl ⟨.loadFontProgram, rfl⟩
  | _ => exact .inr ⟨_, rfl, perform_of_memoryAction? rfl⟩

theorem afterCall_eq (machine : Machine) (call : Call) :
    machine.afterCall call = Outcome.machine (call.perform machine) := by
  rw [afterCall]
  cases call.perform machine with
  | ok reply after => rfl
  | error failure after => rfl

theorem afterCall_request (machine : Machine) (request : Request) :
    machine.afterCall request.call = Outcome.machine (request.perform machine) := by
  rw [afterCall_eq, request.perform_call, machine_nothingAfter]

/-! ## What lasts -/

section

variable {invariant : Memory → Prop} (maintained : Memory.Maintained invariant)

include maintained

theorem maintains_memoryAction {call : Call} {action : MemoryAction Reply}
    (named : call.memoryAction? = some action) : Maintains invariant action := by
  cases call with
  | onStack call =>
      cases named
      exact maintained.stackCall call
  | writeStorage location value =>
      cases named
      exact (maintained.writeStorage location value).bind fun _ => .pure _
  | setControlValue index value =>
      cases named
      exact (maintained.setControlValue index value).bind fun _ => .pure _
  | _ => cases named

variable {first machine : Machine}

theorem Retains.afterCall (rest : machine.AtRest) (retains : Retains invariant first machine)
    (call : Call) : Retains invariant first (machine.afterCall call) := by
  rcases call.request_or_memoryAction with ⟨request, rfl⟩ | ⟨action, named, performs⟩
  · rw [afterCall_request]
    exact (retains.begin request).of_reaches maintained (rest.reaches_perform request)
  · rw [afterCall_eq, performs, ← stateAfter_eq_machine]
    exact Retains.onMemory (maintains_memoryAction maintained named) machine retains

theorem Retains.afterCalls (rest : machine.AtRest) (retains : Retains invariant first machine)
    (calls : List Call) : Retains invariant first (machine.afterCalls calls) := by
  induction calls generalizing machine with
  | nil => exact retains
  | cons call calls induction =>
      exact induction (rest.afterCall call) (retains.afterCall maintained rest call)

end

end Machine

end Hinting
