import Hinting.Proofs.Session.History
import Hinting.Proofs.Stepping.Atomicity
import Hinting.Proofs.Stepping.Recording

/-!
Conditionals without an EIF.

An IF that is not taken looks for the end of its branch, and so does the ELSE behind a branch that
is taken. If they look in vain then the run fails. Nothing else looks for an EIF: it is not missed
behind a taken branch without an ELSE, nor behind an ELSE that has been skipped to.
-/

namespace Hinting.Machine

/-! ## Failures of the active program -/

/-- The request fails, and what it reports was raised as this failure. -/
def Request.Reports (request : Request) (machine : Machine) (raised : Failure) : Prop :=
  ∃ failure after, request.perform machine = .error failure after ∧ failure.Carries raised

section

variable {machine last after : Machine} {request : Request} {active : Activation}
  {callers : List Caller}

theorem AtRest.reports (rest : machine.AtRest) {raised : Failure}
    (reaches : Reaches (request.begin machine) (.running active callers last))
    (fails : runRest (outermostCall machine.limits) active last = .error raised after) :
    request.Reports machine raised := by
  have nested : Nested machine.limits active callers last :=
    (rest.nested_begin request).of_reaches reaches
  have calls : CallsArrive machine.limits (machine.limits.maxCallDepth + 1)
      (outermostCall machine.limits) :=
    callsArrive_callFunction (runsArrive_runNested _ _)
  have enough : last.room ≤ machine.limits.maxCallDepth + 1 := by
    rw [room, nested.sameLimits]
    omega
  have ends := calls.reaches_runRest active callers last nested enough
  rw [fails] at ends
  rcases failsWith_fail active.purpose callers raised after with ⟨failure, left, failed, _⟩
  rw [atEnd, failed] at ends
  exact ⟨failure, left, (rest.eq_perform (reaches.trans ends)).symm, carries_fail failed⟩

/-! ## Instructions that are carried out -/

section

variable {call : UInt32 → Nat → MachineAction Unit} {instruction : Instruction}

theorem runRest_of_error (found : active.program[active.index]? = some instruction)
    (closed : last.capture = none) (affordable : last.AffordsStep) {raised : Failure}
    (fails : carryOut (active.program.drop (active.index + 1)) instruction
      (last.fetched active.index instruction) = .error raised after) :
    runRest call active last =
      .error (raised.within (.instruction instruction.mnemonic active.index)) after := by
  rw [runRest, runFrom_fetched call found]
  apply bind_apply_of_error
  rw [fetch_of_closed closed affordable]
  exact within_apply_of_error _ fails

theorem runRest_of_goOn (found : active.program[active.index]? = some instruction)
    (closed : last.capture = none) (affordable : last.AffordsStep) {pass : Nat}
    (ends : carryOut (active.program.drop (active.index + 1)) instruction
      (last.fetched active.index instruction) = .ok (.goOn pass) after) :
    runRest call active last =
      runFrom call (active.index + 1) pass (active.program.drop (active.index + 1)) after := by
  have fetched : fetch active.index instruction (active.program.drop (active.index + 1)) last =
      .ok (.goOn pass) after := by
    rw [fetch_of_closed closed affordable]
    exact within_apply_of_ok _ ends
  have settled : within (.instruction instruction.mnemonic active.index)
      (settle call (.goOn pass)) after = .ok pass after := rfl
  rw [runRest, runFrom_fetched call found, bind_apply_of_ok fetched, bind_apply_of_ok settled]

end

/-! ## What a branch leaves -/

open Correspondence

theorem kept_of_runFrom (closed : last.capture = none)
    (bodies : ∀ id body, last.functions.get? id = some body → body.DefinesNothing)
    (keeps : last.KeepsFontProgram) {index : Nat} {program : Program}
    (ran : runFrom (outermostCall last.limits) index 0 program last = .ok () after) :
    after.limits = last.limits ∧ (program.DefinesNothing → after.capture = none) := by
  -- The machine corresponds to itself, and what the correspondence says still holds behind the
  -- program.
  have holds := holds_self closed bodies keeps (last.limits.maxCallDepth + 2)
  have runs : ∀ {definitions}, (shift last.limits 0 0).AdmitsProgram definitions program →
      (shift last.limits 0 0).Holds definitions
        ⟨last.limits.maxCallDepth + 2, last.callDepth, last.inFontProgram⟩ after after := by
    intro definitions admitted
    have agree : Agree _ 0 _ (runFrom (outermostCall last.limits) index 0 program last)
        (runFrom (outermostCall last.limits) index 0 program last) :=
      holds.weaken.runFrom callsAgree_outermostCall index 0 program admitted
    rw [ran] at agree
    cases agree with
    | ok _ kept => exact kept
  exact ⟨(runs (shift_admitsProgram _ _ _ program)).related.leftLimits,
    fun definesNothing => (runs ⟨fun _ => definesNothing, fun _ _ => trivial⟩).closed rfl⟩

/-! ## Looks ahead in vain -/

/-- An IF is about to be carried out, and behind it there is no EIF that belongs to it. -/
structure Unended (active : Activation) (machine : Machine) (condition : Value)
    (below : List Value) : Prop where
  found : active.program[active.index]? = some (.control .beginIf)
  closed : machine.capture = none
  affordable : machine.AffordsStep
  held : machine.memory.stack.values = condition :: below
  missing : ¬∃ resume, active.program.EndsBranch false (active.index + 1) resume

def behindIf (index : Nat) (below : List Value) (machine : Machine) : Machine :=
  (machine.fetched index (.control .beginIf)).withValues below

/-- How a taken branch and the ELSE behind it fail when there is no EIF. -/
inductive Stops (limits : Limits) (place : Nat) (branch : Outcome Unit) : Failure → Prop
  | earlier {raised : Failure} {left : Machine} (fails : branch = .error raised left) :
      Stops limits place branch raised
  | unbalanced {left : Machine} (comes : branch = .ok () left) :
      Stops limits place branch ⟨[.instruction "ELSE" place], .unbalancedConditional⟩
  | exhausted {left : Machine} {limit : Nat} (comes : branch = .ok () left)
      (budget : limits.maxSteps = some limit) :
      Stops limits place branch { cause := .stepLimitExceeded limit }

theorem distanceToMarker?_beginElse_eq_none {taken later : Program}
    (balanced : taken.Balanced false)
    (missing : distanceToMarker? false 0 (taken ++ .control .beginElse :: later) = none) :
    distanceToMarker? false 0 later = none := by
  rw [balanced.distanceToMarker?_append nofun, Option.map_eq_none_iff,
    distanceToMarker?_cons] at missing
  exact Option.map_eq_none_iff.mp missing

section

variable {call : UInt32 → Nat → MachineAction Unit} {condition : Value} {below : List Value}

namespace Unended

variable (unended : Unended active last condition below)

include unended

theorem carryOut :
    carryOut (active.program.drop (active.index + 1)) (.control .beginIf)
        (last.fetched active.index (.control .beginIf)) =
      if condition.raw = 0 then
        match distanceToMarker? true 0 (active.program.drop (active.index + 1)) with
        | some distance => .ok (.goOn distance) (last.behindIf active.index below)
        | none => .error { cause := .unbalancedConditional } (last.behindIf active.index below)
      else .ok (.goOn 0) (last.behindIf active.index below) :=
  carryOut_beginIf unended.held

theorem runRest_skipped (zero : condition.raw = 0)
    (alone : ¬∃ resume, active.program.EndsBranch true (active.index + 1) resume) :
    runRest call active last =
      .error ⟨[.instruction "IF" active.index], .unbalancedConditional⟩
        (last.behindIf active.index below) := by
  have fails := unended.carryOut
  rw [if_pos zero, distanceToMarker?_eq_none_iff.mpr alone] at fails
  exact runRest_of_error unended.found unended.closed unended.affordable fails

theorem runRest_taken (nonzero : condition.raw ≠ 0) :
    runRest call active last =
      runFrom call (active.index + 1) 0 (active.program.drop (active.index + 1))
        (last.behindIf active.index below) := by
  have goesOn := unended.carryOut
  rw [if_neg nonzero] at goesOn
  exact runRest_of_goOn unended.found unended.closed unended.affordable goesOn

end Unended

theorem runFrom_beginElse (closed : last.capture = none) {later : Program}
    (missing : distanceToMarker? false 0 later = none) (place : Nat) :
    ∃ raised after, runFrom call place 0 (.control .beginElse :: later) last = .error raised after ∧
      (raised = ⟨[.instruction "ELSE" place], .unbalancedConditional⟩ ∨
        ∃ limit, last.limits.maxSteps = some limit ∧
          raised = { cause := .stepLimitExceeded limit }) := by
  rw [runFrom, step_eq, bind_assoc]
  by_cases affordable : last.AffordsStep
  · have fails : carryOut later (.control .beginElse) (last.fetched place (.control .beginElse)) =
        .error { cause := .unbalancedConditional } (last.fetched place (.control .beginElse)) := by
      rw [carryOut_beginElse, missing]
    have fetched : fetch place (.control .beginElse) later last =
        .error ⟨[.instruction "ELSE" place], .unbalancedConditional⟩
          (last.fetched place (.control .beginElse)) := by
      rw [fetch_of_closed closed affordable]
      exact within_apply_of_error _ fails
    exact ⟨_, _, bind_apply_of_error fetched, .inl rfl⟩
  · rcases tick_of_not_affordsStep affordable with ⟨limit, budget, ticked⟩
    have fetched : fetch place (.control .beginElse) later last =
        .error { cause := .stepLimitExceeded limit } { last with steps := last.steps + 1 } :=
      bind_apply_of_error ticked
    exact ⟨_, _, bind_apply_of_error fetched, .inr ⟨limit, budget, rfl⟩⟩

theorem Unended.stops (unended : Unended active last condition below)
    (bodies : ∀ id body, last.functions.get? id = some body → body.DefinesNothing)
    (keeps : last.KeepsFontProgram) (nonzero : condition.raw ≠ 0) {taken later : Program}
    (balanced : taken.Balanced false)
    (behind : active.program.drop (active.index + 1) = taken ++ .control .beginElse :: later)
    {branch : Outcome Unit}
    (ran : runFrom (outermostCall last.limits) (active.index + 1) 0 taken
      (last.behindIf active.index below) = branch) :
    (∃ raised after, Stops last.limits (active.index + 1 + taken.length) branch raised ∧
      runRest (outermostCall last.limits) active last = .error raised after) ∨
    ¬taken.DefinesNothing ∧ ∃ left capture, branch = .ok () left ∧ left.capture = some capture := by
  have missing : distanceToMarker? false 0 later = none := by
    apply distanceToMarker?_beginElse_eq_none balanced
    rw [← behind]
    exact distanceToMarker?_eq_none_iff.mpr unended.missing
  rw [unended.runRest_taken nonzero, behind,
    runFrom_append_of_findsMarkers _ balanced.findsMarkers, bind_apply, ran]
  cases branch with
  | error raised left => exact .inl ⟨raised, left, .earlier rfl, rfl⟩
  | ok result left =>
      have closed : (last.behindIf active.index below).capture = none := unended.closed
      have kept := kept_of_runFrom closed bodies keeps ran
      -- A definition that the branch has left open records the ELSE.
      cases captured : left.capture with
      | some capture =>
          refine .inr ⟨fun definesNothing => ?_, left, capture, rfl, captured⟩
          cases captured.symm.trans (kept.2 definesNothing)
      | none =>
          rcases runFrom_beginElse captured missing (active.index + 1 + taken.length) with
            ⟨raised, after, fails, how⟩
          refine .inl ⟨raised, after, ?_, fails⟩
          rcases how with rfl | ⟨limit, budget, rfl⟩
          · exact .unbalanced rfl
          · rw [kept.1] at budget
            exact .exhausted rfl budget

end

end

/-! ## Sessions -/

/-- An IF without an EIF is reported where the EIF is looked for: by the IF itself if its condition
is zero and it has no ELSE, and by its ELSE if the condition is not zero. Before that ELSE the taken
branch may fail, or take the last step of the budget, or open a definition that records the ELSE. -/
theorem session_unended (limits : Limits) (font : Option FontTables) (history : List Operation)
    (request : Request) {active : Activation} {callers : List Caller} {last : Machine}
    {condition : Value} {below : List Value}
    (reaches : Reaches (request.begin (session limits font history))
      (.running active callers last))
    (unended : Unended active last condition below) :
    let machine := session limits font history
    (condition.raw = 0 →
      (¬∃ resume, active.program.EndsBranch true (active.index + 1) resume) →
        request.Reports machine ⟨[.instruction "IF" active.index], .unbalancedConditional⟩) ∧
    ∀ taken later, condition.raw ≠ 0 → taken.Balanced false →
      active.program.drop (active.index + 1) = taken ++ .control .beginElse :: later →
      let branch := runFrom (outermostCall limits) (active.index + 1) 0 taken
        (last.behindIf active.index below)
      (∃ raised, Stops limits (active.index + 1 + taken.length) branch raised ∧
        request.Reports machine raised) ∨
      ¬taken.DefinesNothing ∧
        ∃ left capture, branch = .ok () left ∧ left.capture = some capture := by
  intro machine
  have resting := resting_session limits font history
  have nested : Nested machine.limits active callers last :=
    (resting.rest.nested_begin request).of_reaches reaches
  have documented : Documented request machine active callers last :=
    resting.rest.documented reaches
  have bodies : ∀ id body, last.functions.get? id = some body → body.DefinesNothing :=
    fun _ _ found => documented.accounted.definesNothing resting.rest found
  have keeps : last.KeepsFontProgram := resting.rest.keeps_of_reaches reaches
  have sameLimits : last.limits = limits := nested.sameLimits.trans resting.limits
  constructor
  · intro zero alone
    exact resting.rest.reports reaches (unended.runRest_skipped zero alone)
  · intro taken later nonzero balanced behind branch
    have same : machine.limits = last.limits := nested.sameLimits.symm
    refine (unended.stops bodies keeps nonzero balanced behind (by rw [sameLimits])).imp_left ?_
    rintro ⟨raised, after, stops, fails⟩
    rw [sameLimits] at stops
    rw [← same] at fails
    exact ⟨raised, stops, resting.rest.reports reaches fails⟩

/-- The IF is the whole body of a function, and it is not taken. With an ELSE it may as well be
taken. -/
theorem session_unended_body :
    let program (number : UInt8) (body : Program) : Program :=
      .push (.ofBytes [number, 5, 5]) :: .control .beginFunction ::
        (body ++ [.control .endFunction, .control .call])
    Request.Reports (.executeProgram (program 0 [.control .beginIf])) (session {} none [])
      ⟨[.instruction "IF" 0], .unbalancedConditional⟩ ∧
    Request.Reports (.executeProgram (program 1 [.control .beginIf, .control .beginElse]))
      (session {} none []) ⟨[.instruction "ELSE" 1], .unbalancedConditional⟩ := by
  intro program
  have unended : ∀ (state : Progress) (number : Int64) (body : Program),
      body[0]? = some (.control .beginIf) → state.machine.capture = none →
      state.machine.limits.maxSteps = none → state.machine.memory.stack.values = [.int number] →
      distanceToMarker? false 0 (body.drop 1) = none →
        Unended ⟨.function 5 0, body, 0⟩ state.machine (.int number) [] := by
    intro state number body found closed unlimited held missing
    exact
      { found
        closed
        affordable := by
          rw [AffordsStep, unlimited]
          exact nofun
        held
        missing := distanceToMarker?_eq_none_iff.mp missing }
  constructor
  · let request := Request.executeProgram (program 0 [.control .beginIf])
    let state := Progress.next^[6] (request.begin (session {} none []))
    have here : state = .running ⟨.function 5 0, [.control .beginIf], 0⟩
        [⟨⟨.program, program 0 [.control .beginIf], 5⟩, .instruction "CALL" 4, ⟨5, 1⟩⟩]
        state.machine :=
      Progress.eq_running_of_levels? (by decide +kernel)
    have reaches : Reaches (request.begin (session {} none [])) state := Progress.reaches_next 6 _
    rw [here] at reaches
    have skipped := unended state 0 [.control .beginIf] rfl (by decide +kernel)
      (by decide +kernel) (by decide +kernel) rfl
    exact (session_unended {} none [] request reaches skipped).1 rfl
      (distanceToMarker?_eq_none_iff.mp rfl)
  · let body : Program := [.control .beginIf, .control .beginElse]
    let request := Request.executeProgram (program 1 body)
    let state := Progress.next^[7] (request.begin (session {} none []))
    have here : state = .running ⟨.function 5 0, body, 0⟩
        [⟨⟨.program, program 1 body, 6⟩, .instruction "CALL" 5, ⟨5, 1⟩⟩] state.machine :=
      Progress.eq_running_of_levels? (by decide +kernel)
    have reaches : Reaches (request.begin (session {} none [])) state := Progress.reaches_next 7 _
    rw [here] at reaches
    have taken := unended state 1 body rfl (by decide +kernel) (by decide +kernel)
      (by decide +kernel) rfl
    rcases (session_unended {} none [] request reaches taken).2 [] [] (by decide) .nil rfl with
      ⟨raised, stops, reports⟩ | ⟨defines, _⟩
    · cases stops with
      | earlier fails => cases fails
      | unbalanced comes => exact reports
      | exhausted comes budget => cases budget
    · exact absurd (List.forall_mem_nil _) defines

/-- Nobody looks for the EIF of an IF that is taken, nor for that of an ELSE that has been skipped
to. -/
theorem executeProgram_unended :
    (∃ after, executeProgram [.control .beginIf]
      ((new {}).afterCall (.onStack (.push (.int 1)))) = .ok () after) ∧
    ∃ after, executeProgram [.control .beginIf, .control .beginElse]
      ((new {}).afterCall (.onStack (.push (.int 0)))) = .ok () after :=
  ⟨⟨_, rfl⟩, _, rfl⟩

end Hinting.Machine
