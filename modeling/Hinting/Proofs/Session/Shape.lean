import Hinting.Proofs.Memory.Shape
import Hinting.Proofs.Session.Calls

/-!
The shape of memory in sessions.

A session is taken as one run: small steps while a request is served, and calls in between. What one
of these keeps holds in every state of the session, those in the midst of a run included.
-/

namespace Hinting

namespace Machine

/-! ## Sessions as runs -/

/-- What comes next in a session: the next step of a run, or the next call when none is going on. -/
inductive Proceeds : Progress → Progress → Prop
  | step {before after : Progress} (follows : Follows before after) : Proceeds before after
  | request (outcome : Outcome Unit) (request : Request) :
      Proceeds (.ended outcome) (request.begin outcome.machine)
  | memoryCall (outcome : Outcome Unit) {call : Call} {action : MemoryAction Reply}
      (named : call.memoryAction? = some action) :
      Proceeds (.ended outcome) (.ended (.ok () (outcome.machine.afterCall call)))

def Leads : Progress → Progress → Prop := Relation.ReflTransGen Proceeds

theorem Reaches.leads {first last : Progress} (reaches : Reaches first last) : Leads first last :=
  Relation.ReflTransGen.mono (fun _ _ => Proceeds.step) _ _ reaches

theorem AtRest.leads_afterCall {machine : Machine} (rest : machine.AtRest) {outcome : Outcome Unit}
    (same : outcome.machine = machine) (call : Call) :
    ∃ after, Outcome.machine after = machine.afterCall call ∧
      Leads (.ended outcome) (.ended after) := by
  subst same
  rcases call.request_or_memoryAction with ⟨request, rfl⟩ | ⟨action, named, _⟩
  · refine ⟨request.perform outcome.machine, (afterCall_request _ request).symm, ?_⟩
    exact Relation.ReflTransGen.head (.request outcome request)
      (rest.reaches_perform request).leads
  · exact ⟨_, rfl, .single (.memoryCall outcome named)⟩

theorem AtRest.leads_afterCalls {machine : Machine} (rest : machine.AtRest)
    {outcome : Outcome Unit} (same : outcome.machine = machine) (calls : List Call) :
    ∃ after, Outcome.machine after = machine.afterCalls calls ∧
      Leads (.ended outcome) (.ended after) := by
  induction calls generalizing machine outcome with
  | nil => exact ⟨outcome, same, .refl⟩
  | cons call calls induction =>
      rcases rest.leads_afterCall same call with ⟨middle, between, first⟩
      rcases induction (rest.afterCall call) between with ⟨after, last, onward⟩
      exact ⟨after, last, first.trans onward⟩

/-! ## What lasts -/

section

variable {invariant : Memory → Prop} (maintained : Memory.Maintained invariant)

include maintained

theorem Retains.proceeds {first : Machine} {before after : Progress}
    (retains : Retains invariant first before.machine) (proceeds : Proceeds before after) :
    Retains invariant first after.machine := by
  cases proceeds with
  | step follows =>
      cases follows with
      | advance active callers machine => exact retains.advance maintained
  | request outcome request => exact retains.begin request
  | @memoryCall outcome call action named =>
      change Retains invariant first (outcome.machine.afterCall call)
      rw [afterCall_eq, call.perform_of_memoryAction? named, ← stateAfter_eq_machine]
      exact Retains.onMemory (maintains_memoryAction maintained named) outcome.machine retains

theorem Retains.leads {first : Machine} {before after : Progress}
    (retains : Retains invariant first before.machine) (leads : Leads before after) :
    Retains invariant first after.machine := by
  induction leads with
  | refl => exact retains
  | tail _ proceeds induction => exact induction.proceeds maintained proceeds

end

/-! ## The shape of memory -/

theorem shaped_opened (limits : Limits) (font : Option FontTables) :
    (opened limits font).memory.Shaped limits font := by
  cases font with
  | none => exact ⟨rfl, Nat.zero_le _, rfl⟩
  | some font => exact ⟨rfl, Nat.zero_le _, List.length_map _⟩

theorem shaped_of_leads {limits : Limits} {font : Option FontTables} {state : Progress}
    (leads : Leads (.ended (.ok () (opened limits font))) state) :
    state.machine.memory.Shaped limits font := by
  have maintained := Memory.maintained_shaped limits font
  have begun : Retains (Memory.Shaped limits font) (opened limits font) (opened limits font) :=
    .refl (shaped_opened limits font)
  exact (begun.leads maintained leads).memory

theorem grows_of_leads {state later : Progress} (leads : Leads state later) :
    state.machine.memory.storage.Grows later.machine.memory.storage := by
  have maintained := Memory.maintained_grows state.machine.memory.storage
  have begun : Retains (fun memory => state.machine.memory.storage.Grows memory.storage)
      state.machine state.machine := .refl (.refl _)
  exact (begun.leads maintained leads).memory

/-- In every state of a session the stack keeps to its limit, and there are as many control values
as the font has. A location that is written stays so: if RS has found a value there once, it finds
one ever after. The states between calls are among those of the session. -/
theorem session_shape (limits : Limits) (font : Option FontTables) :
    (∀ state, Leads (.ended (.ok () (opened limits font))) state →
        state.machine.memory.Shaped limits font ∧
          ∀ later, Leads state later →
            state.machine.memory.storage.Grows later.machine.memory.storage ∧
              ∀ location, state.machine.memory.Readable location →
                ∀ top below maxDepth, top.toLocation = .ok location →
                  ∃ value, StorageOperation.rs.apply
                      { later.machine.memory with stack := ⟨top :: below, maxDepth⟩ } =
                    .ok () { later.machine.memory with stack := ⟨value :: below, maxDepth⟩ }) ∧
      ∀ past later, ∃ first last,
        Outcome.machine first = (opened limits font).afterCalls past ∧
          Outcome.machine last = (opened limits font).afterCalls (past ++ later) ∧
          Leads (.ended (.ok () (opened limits font))) (.ended first) ∧
          Leads (.ended first) (.ended last) := by
  refine ⟨fun state leads => ⟨shaped_of_leads leads, ?_⟩, fun past later => ?_⟩
  · intro later onward
    have grows := grows_of_leads onward
    refine ⟨grows, fun location readable top below maxDepth named => ?_⟩
    have written := grows location (Memory.written_of_readable readable)
    exact Memory.reads_of_written written named below maxDepth
  · have rest := (resting_opened limits font).rest
    have start : Outcome.machine (.ok () (opened limits font)) = opened limits font := rfl
    rcases rest.leads_afterCalls start past with ⟨first, between, leads⟩
    rcases (rest.afterCalls past).leads_afterCalls between later with ⟨last, after, onward⟩
    refine ⟨first, last, between, ?_, leads, onward⟩
    rw [after, afterCalls, afterCalls, afterCalls, List.foldl_append]

/-- A program writes to storage. What follows fails, and works on stack and control values. -/
theorem session_shape_read :
    let font : FontTables := { controlValues := [10, 20] }
    let past : List Call := [.executeProgram [.push (.ofBytes [3, 7]), .storage .ws]]
    let later : List Call := [.executeProgram [.stack .pop], .setControlValue 1 (.int 5),
      .onStack (.push (.int 3))]
    let last := (opened {} (some font)).afterCalls (past ++ later)
    last.memory.Shaped {} (some font) ∧
      ((opened {} (some font)).afterCalls past).memory.storage.Grows last.memory.storage ∧
      ∃ value, StorageOperation.rs.apply { last.memory with stack := ⟨[.int 3], 256⟩ } =
        .ok () { last.memory with stack := ⟨[value], 256⟩ } := by
  intro font past later last
  rcases session_shape {} (some font) with ⟨shape, between⟩
  rcases between past later with ⟨first, final, afterPast, afterLater, leads, onward⟩
  have reached : Outcome.machine final = last := afterLater
  have written : (((opened {} (some font)).afterCalls past).memory.storage.get? 3).isSome := by
    decide +kernel
  have named : (Value.int 3).toLocation = .ok 3 := rfl
  have readable : (Outcome.machine first).memory.Readable 3 := by
    rw [afterPast]
    rcases Memory.reads_of_written written named [] 1 with ⟨value, reads⟩
    exact ⟨.int 3, [], 1, _, named, reads⟩
  rcases (shape _ leads).2 _ onward with ⟨grows, reads⟩
  rw [← reached, ← afterPast]
  exact ⟨(shape _ (leads.trans onward)).1, grows, reads 3 readable (.int 3) [] 256 named⟩

end Machine

end Hinting
