import Hinting.Proofs.Program.Sequence
import Hinting.Proofs.Stepping.Entering
import Hinting.Proofs.Stepping.Surroundings

/-!
What a small step can do.

The ways in which a state is followed by another one are listed once, with what they do to the
limits, the depths and the number of steps. Everything that holds all along a run follows from this
list.
-/

namespace Hinting.Machine

/-! ## Machines before and after -/

/-- What a small step adds to the number of steps: instructions fetched and function bodies entered
are counted. -/
def Activation.cost (active : Activation) : Nat :=
  match active.program[active.index]?, active.purpose with
  | some _, _ => 1
  | none, .function _ (_ + 1) => 1
  | none, _ => 0

theorem Activation.cost_le_one (active : Activation) : active.cost ≤ 1 := by
  rw [cost]
  split
  · exact Nat.le_refl 1
  · exact Nat.le_refl 1
  · exact Nat.zero_le 1

def charged (cost : Nat) (machine : Machine) : Machine :=
  { machine with steps := machine.steps + cost }

structure SameNesting (before after : Machine) : Prop where
  limits : after.limits = before.limits
  callDepth : after.callDepth = before.callDepth
  inFontProgram : after.inFontProgram = before.inFontProgram
  steps : after.steps = before.steps

namespace SameNesting

variable {before middle after : Machine}

theorem refl (machine : Machine) : SameNesting machine machine :=
  ⟨rfl, rfl, rfl, rfl⟩

theorem trans (first : SameNesting before middle) (second : SameNesting middle after) :
    SameNesting before after where
  limits := second.limits.trans first.limits
  callDepth := second.callDepth.trans first.callDepth
  inFontProgram := second.inFontProgram.trans first.inFontProgram
  steps := second.steps.trans first.steps

theorem tick (machine : Machine) :
    SameNesting (machine.charged 1) (Outcome.machine (tick machine)) := by
  rw [tick_apply]
  cases machine.limits.maxSteps with
  | none => exact .refl _
  | some limit =>
      dsimp only
      split
      · exact .refl _
      · exact .refl _

theorem of_oblivious {action : MachineAction α} (oblivious : Oblivious action)
    (machine : Machine) : SameNesting machine (Outcome.machine (action machine)) := by
  have same := oblivious.surroundings_eq machine
  exact
    { limits := congrArg Surroundings.limits same
      callDepth := congrArg Surroundings.callDepth same
      inFontProgram := congrArg Surroundings.inFontProgram same
      steps := congrArg Surroundings.steps same }

end SameNesting

/-! ## Fetching -/

def Effect.Inside (length : Nat) : Effect → Prop
  | .goOn pass => pass ≤ length
  | .call _ => True

theorem Returns.map {property : α → Prop} {mapped : β → Prop} {action : MachineAction α}
    (returns : Returns property action) (map : α → β)
    (holds : ∀ result, property result → mapped (map result)) :
    Returns mapped (do return map (← action)) := by
  intro machine result after ends
  rcases bind_eq_ok.mp ends with ⟨first, middle, acted, equal⟩
  cases equal
  exact holds first (returns machine first after acted)

theorem returns_carryOut (rest : Program) (instruction : Instruction) :
    Returns (Effect.Inside rest.length) (carryOut rest instruction) := by
  have executed : Returns (Effect.Inside rest.length)
      (do return .goOn (← execute (fun _ _ => pure ()) rest instruction)) :=
    (returns_execute instruction rest).map _ fun _ inside => inside
  cases instruction with
  | control operation =>
      cases operation with
      | call => exact .bind fun _ => .bind fun _ => .pure trivial
      | loopCall =>
          refine .bind fun _ => .bind fun _ => .bind fun count => .bind fun _ => .pure ?_
          split
          · trivial
          · exact Nat.zero_le _
      | _ => exact executed
  | _ => exact executed

theorem returns_fetch (index : Nat) (instruction : Instruction) (rest : Program) :
    Returns (Effect.Inside rest.length) (fetch index instruction rest) := by
  refine .bind fun _ => .bind fun machine => ?_
  cases machine.capture with
  | some capture => exact .bind fun _ => .pure (Nat.zero_le _)
  | none => exact .bind fun _ => (returns_carryOut rest instruction).within

theorem SameNesting.fetch (index : Nat) (instruction : Instruction) (rest : Program)
    (machine : Machine) :
    SameNesting (machine.charged 1) (Outcome.machine (fetch index instruction rest machine)) := by
  have ticked := SameNesting.tick machine
  rw [Machine.fetch, bind_apply]
  cases ends : Machine.tick machine with
  | error failure after =>
      rw [ends] at ticked
      exact ticked
  | ok result after =>
      rw [ends] at ticked
      exact ticked.trans (.of_oblivious (.attempt index instruction rest) after)

/-! ## Control -/

namespace SameControl

variable {first : Machine}

theorem onMemory (action : MemoryAction α) :
    Maintains (SameControl first) (onMemory action) := by
  intro machine same
  rw [stateAfter_eq_machine]
  exact same.trans (sameControl_onMemory action machine)

theorem compositional : Compositional fun action => Maintains (SameControl first) action where
  strayEnd := Maintains.get.bind fun _ => .throw _
  pure := .pure
  unbalanced := .throw _
  bind := .bind
  onMemory _ := onMemory _

theorem carryOut (rest : Program) {instruction : Instruction}
    (other : instruction ≠ .control .beginFunction) :
    Maintains (SameControl first) (carryOut rest instruction) :=
  compositional.carryOut rest instruction fun same => absurd same other

end SameControl

theorem capture_carryOut_call {rest : Program} {instruction : Instruction}
    {machine after : Machine} {invocation : Invocation}
    (ends : carryOut rest instruction machine = .ok (.call invocation) after) :
    after.capture = machine.capture := by
  have other : instruction ≠ .control .beginFunction := by
    rintro rfl
    rcases bind_eq_ok.mp ends with ⟨_, _, _, impossible⟩
    cases impossible
  have same := SameControl.carryOut rest other machine (.refl machine)
  rw [ends] at same
  exact same.capture

theorem closed_of_fetch_call {index : Nat} {instruction : Instruction} {rest : Program}
    {machine after : Machine} {invocation : Invocation}
    (ends : fetch index instruction rest machine = .ok (.call invocation) after) :
    machine.capture = none ∧ after.capture = none := by
  rcases bind_eq_ok.mp ends with ⟨_, counted, ticked, attempted⟩
  have same := (sameControl_tick machine).capture
  rw [ticked] at same
  rw [attempt, get_bind_apply] at attempted
  cases captured : counted.capture with
  | some capture =>
      rw [captured] at attempted
      rcases bind_eq_ok.mp attempted with ⟨_, _, _, impossible⟩
      cases impossible
  | none =>
      rw [captured] at attempted
      rcases bind_eq_ok.mp attempted with ⟨_, middle, emitted, acted⟩
      cases emitted
      refine ⟨same.symm.trans captured, ?_⟩
      rw [within] at acted
      split at acted
      · next carried =>
          cases acted
          exact (capture_carryOut_call carried).trans captured
      · cases acted

/-! ## Steps -/

/-- The ways in which a state is followed by another one. -/
inductive Advances (active : Activation) (callers : List Caller) (machine : Machine) :
    Progress → Prop
  | ends (outcome : Outcome Unit)
      (limits : (Outcome.machine outcome).limits = machine.limits)
      (steps : (Outcome.machine outcome).steps = machine.steps + active.cost) :
      Advances active callers machine (.ended outcome)
  | goesOn (index : Nat) (after : Machine) (forward : active.index < index)
      (inside : index ≤ active.program.length)
      (same : SameNesting (machine.charged active.cost) after) :
      Advances active callers machine (.running { active with index } callers after)
  | calls (site : Context) (invocation : Invocation) (body : Program) (after : Machine)
      (inside : active.index < active.program.length)
      (room : machine.callDepth < machine.limits.maxCallDepth)
      (same : SameNesting
        { machine.charged active.cost with callDepth := machine.callDepth + 1 } after) :
      Advances active callers machine
        (.running ⟨.function invocation.id invocation.count, body, body.length⟩
          (active.calling site invocation :: callers) after)
  | startsFontProgram (site : Context) (invocation : Invocation) (program : Program)
      (after : Machine) (inside : active.index < active.program.length)
      (outside : machine.inFontProgram = false)
      (closed : machine.capture = none ∧ after.capture = none)
      (same : SameNesting { machine.charged active.cost with inFontProgram := true } after) :
      Advances active callers machine
        (.running ⟨.fontProgram, program, 0⟩ (active.calling site invocation :: callers) after)
  | leavesFontProgram (caller : Caller) (others : List Caller) (body : Program) (after : Machine)
      (purpose : active.purpose = .fontProgram) (waiting : callers = caller :: others)
      (room : machine.callDepth < machine.limits.maxCallDepth)
      (same : SameNesting
        { machine.charged active.cost with
          inFontProgram := false, callDepth := machine.callDepth + 1 } after) :
      Advances active callers machine
        (.running ⟨.function caller.invocation.id caller.invocation.count, body, body.length⟩
          callers after)
  | repeats (id : UInt32) (more : Nat) (after : Machine)
      (purpose : active.purpose = .function id (more + 1))
      (same : SameNesting (machine.charged active.cost) after) :
      Advances active callers machine
        (.running ⟨.function id more, active.program, 0⟩ callers after)
  | returns (id : UInt32) (caller : Caller) (others : List Caller) (after : Machine)
      (purpose : active.purpose = .function id 0) (waiting : callers = caller :: others)
      (same : SameNesting
        { machine.charged active.cost with callDepth := machine.callDepth - 1 } after) :
      Advances active callers machine (.running caller.toActivation others after)

theorem machine_fail (purpose : Purpose) (callers : List Caller) (failure : Failure)
    (machine : Machine) :
    (Outcome.machine (fail purpose callers failure machine)).limits = machine.limits ∧
      (Outcome.machine (fail purpose callers failure machine)).steps = machine.steps := by
  refine holds_fail
    (fun later => later.limits = machine.limits ∧ later.steps = machine.steps)
    (fun purpose later same => ?_) purpose callers failure ⟨rfl, rfl⟩
  cases purpose with
  | _ => exact same

variable {active : Activation} {callers : List Caller} {machine middle : Machine}

theorem Advances.fails (purpose : Purpose) (others : List Caller) (failure : Failure)
    (limits : middle.limits = machine.limits)
    (steps : middle.steps = machine.steps + active.cost) :
    Advances active callers machine (.ended (fail purpose others failure middle)) := by
  rcases machine_fail purpose others failure middle with ⟨sameLimits, sameSteps⟩
  exact .ends _ (sameLimits.trans limits) (sameSteps.trans steps)

theorem advances_enterDefined (site : Context) (invocation : Invocation)
    (inside : active.index < active.program.length)
    (same : SameNesting (machine.charged active.cost) middle) :
    Advances active callers machine
      (await (active.calling site invocation) callers (enterDefined invocation middle)) := by
  rw [enterDefined_apply]
  cases middle.functions.get? invocation.id with
  | none => exact .fails _ _ _ same.limits same.steps
  | some body =>
      dsimp only
      rw [enter_apply]
      split
      · exact .fails _ _ _ same.limits same.steps
      · next room =>
          rw [same.limits, same.callDepth] at room
          exact .calls site invocation body _ inside (Nat.lt_of_not_le room)
            { limits := same.limits
              callDepth := congrArg (· + 1) same.callDepth
              inFontProgram := same.inFontProgram
              steps := same.steps }

theorem advances_invoke (site : Context) (invocation : Invocation)
    (inside : active.index < active.program.length)
    (closed : machine.capture = none ∧ middle.capture = none)
    (same : SameNesting (machine.charged active.cost) middle) :
    Advances active callers machine
      (await (active.calling site invocation) callers (invoke invocation middle)) := by
  have resolving : SameNesting (machine.charged active.cost)
      { middle with journal := .resolving invocation.id :: middle.journal } :=
    { same with }
  rw [invoke_apply]
  split
  · exact advances_enterDefined site invocation inside same
  · next unknown =>
      have outside : middle.inFontProgram = false :=
        (Bool.or_eq_false_iff.mp (Bool.eq_false_iff.mpr unknown)).2
      dsimp only
      cases middle.fontProgram? with
      | error malformation => exact .fails _ _ _ same.limits same.steps
      | ok found =>
          cases found with
          | none => exact advances_enterDefined site invocation inside resolving
          | some program =>
              exact .startsFontProgram site invocation program _ inside
                (same.inFontProgram.symm.trans outside) closed
                { limits := same.limits
                  callDepth := same.callDepth
                  inFontProgram := rfl
                  steps := same.steps }

theorem advances_fetch (site : Context) {instruction : Instruction}
    (fetched : active.program[active.index]? = some instruction) :
    Advances active callers machine
      (proceed active callers site
        (fetch active.index instruction (active.program.drop (active.index + 1)) machine)) := by
  have inside : active.index < active.program.length :=
    (List.getElem?_eq_some_iff.mp fetched).1
  have same : SameNesting (machine.charged active.cost) (Outcome.machine
      (fetch active.index instruction (active.program.drop (active.index + 1)) machine)) := by
    rw [Activation.cost, fetched]
    exact .fetch _ _ _ _
  cases ends : fetch active.index instruction (active.program.drop (active.index + 1))
      machine with
  | error failure after =>
      rw [ends] at same
      exact .fails _ _ _ same.limits same.steps
  | ok effect after =>
      rw [ends] at same
      cases effect with
      | goOn pass =>
          have jumped : pass ≤ (active.program.drop (active.index + 1)).length :=
            returns_fetch _ _ _ _ _ _ ends
          rw [List.length_drop] at jumped
          exact .goesOn (active.index + 1 + pass) after (by omega) (by omega) same
      | call invocation =>
          exact advances_invoke site invocation inside (closed_of_fetch_call ends) same

theorem advances_finishBody {id : UInt32} {more : Nat}
    (ended : active.program[active.index]? = none) (purpose : active.purpose = .function id more) :
    Advances active callers machine (finishBody id more active.program callers machine) := by
  cases more with
  | zero =>
      have free : active.cost = 0 := by rw [Activation.cost, ended, purpose]
      cases callers with
      | nil => exact .ends _ rfl (by rw [free]; rfl)
      | cons caller others =>
          exact .returns id caller others _ purpose rfl (by rw [free]; exact .refl _)
  | succ more =>
      have ticked : SameNesting (machine.charged active.cost) (Outcome.machine (tick machine)) := by
        rw [Activation.cost, ended, purpose]
        exact .tick machine
      rw [finishBody]
      cases ends : tick machine with
      | error failure after =>
          rw [ends] at ticked
          exact .fails _ _ _ ticked.limits ticked.steps
      | ok result after =>
          rw [ends] at ticked
          exact .repeats id more after purpose ticked

section

variable (free : active.cost = 0)

include free

theorem advances_leaveFontProgram (purpose : active.purpose = .fontProgram) :
    Advances active callers machine (succeed .fontProgram callers machine) := by
  have steps : machine.steps = machine.steps + active.cost := by rw [free, Nat.add_zero]
  cases callers with
  | nil => exact .ends _ rfl steps
  | cons caller others =>
      rw [succeed, enterDefined_apply]
      cases machine.leaveFontProgram.functions.get? caller.invocation.id with
      | none => exact .fails _ _ _ rfl steps
      | some body =>
          dsimp only
          rw [enter_apply]
          split
          · exact .fails _ _ _ rfl steps
          · next room =>
              exact .leavesFontProgram caller others body _ purpose rfl (Nat.lt_of_not_le room)
                ⟨rfl, rfl, rfl, steps⟩

theorem advances_finishWhole {purpose : Purpose}
    (succeeds : Advances active callers machine (succeed purpose callers machine)) :
    Advances active callers machine (finishWhole purpose callers machine) := by
  rw [finishWhole]
  cases machine.capture with
  | some capture => exact .fails _ _ _ rfl (by rw [free, Nat.add_zero])
  | none => exact succeeds

theorem advances_succeed : Advances active callers machine (.ended (.ok () machine)) :=
  .ends _ rfl (by rw [free]; rfl)

end

theorem advances_finish (ended : active.program[active.index]? = none) :
    Advances active callers machine (finish active callers machine) := by
  rw [finish]
  cases purpose : active.purpose with
  | function id more => exact advances_finishBody ended purpose
  | fontProgram =>
      have free : active.cost = 0 := by rw [Activation.cost, ended, purpose]
      exact advances_finishWhole free (advances_leaveFontProgram free purpose)
  | program =>
      have free : active.cost = 0 := by rw [Activation.cost, ended, purpose]
      exact advances_finishWhole free (advances_succeed free)
  | controlValueProgram =>
      have free : active.cost = 0 := by rw [Activation.cost, ended, purpose]
      exact advances_finishWhole free (advances_succeed free)

theorem advances (active : Activation) (callers : List Caller) (machine : Machine) :
    Advances active callers machine (advance active callers machine) := by
  rw [advance]
  cases fetched : active.program[active.index]? with
  | none => exact advances_finish fetched
  | some instruction => exact advances_fetch _ fetched

theorem Follows.advances {next : Progress}
    (follows : Follows (.running active callers machine) next) :
    Advances active callers machine next := by
  cases follows
  exact Machine.advances active callers machine

theorem closed_of_startsFontProgram {program : Program} {caller : Caller} {after : Machine}
    (follows : Follows (.running active callers machine)
      (.running ⟨.fontProgram, program, 0⟩ (caller :: callers) after)) :
    machine.capture = none ∧ after.capture = none := by
  -- No other step has these callers: where the program stays, so do they, and a return has fewer.
  have step := follows.advances
  generalize same : Progress.running ⟨.fontProgram, program, 0⟩ (caller :: callers) after = next
    at step
  cases step with
  | startsFontProgram site invocation started left inside outside closed nesting =>
      cases same
      exact closed
  | goesOn index left forward inside nesting =>
      injection same with _ longer _
      exact absurd longer (List.cons_ne_self _ _)
  | returns id waitingCaller others left purpose waiting nesting =>
      injection same with _ longer _
      have longerByTwo := congrArg List.length waiting
      rw [← longer, List.length_cons, List.length_cons] at longerByTwo
      omega
  | ends outcome limits steps => cases same
  | calls site invocation body left inside room nesting => cases same
  | leavesFontProgram waitingCaller others body left purpose waiting room nesting => cases same
  | repeats id more left purpose nesting => cases same

/-! ## Steps along a run -/

theorem Advances.steps {next : Progress} (step : Advances active callers machine next) :
    next.machine.steps = machine.steps + active.cost := by
  cases step with
  | ends outcome limits steps => exact steps
  | _ =>
      rename_i same
      exact same.steps

theorem steps_advance (active : Activation) (callers : List Caller) (machine : Machine) :
    (advance active callers machine).machine.steps = machine.steps + active.cost :=
  (advances active callers machine).steps

theorem Advances.limits {next : Progress} (step : Advances active callers machine next) :
    next.machine.limits = machine.limits := by
  cases step with
  | ends outcome limits steps => exact limits
  | _ =>
      rename_i same
      exact same.limits

theorem limits_advance (active : Activation) (callers : List Caller) (machine : Machine) :
    (advance active callers machine).machine.limits = machine.limits :=
  (advances active callers machine).limits

theorem Reaches.limits {first last : Progress} (reaches : Reaches first last) :
    last.machine.limits = first.machine.limits := by
  refine @Reaches.lasts (fun state => state.machine.limits = first.machine.limits) _ _ reaches ?_
    rfl
  intro active callers machine same
  exact (limits_advance active callers machine).trans same

theorem Reaches.steps_le {first last : Progress} (reaches : Reaches first last) :
    first.machine.steps ≤ last.machine.steps := by
  refine @Reaches.lasts (fun state => first.machine.steps ≤ state.machine.steps) _ _ reaches ?_
    (Nat.le_refl _)
  intro active callers machine fewer
  rw [steps_advance]
  exact Nat.le_trans fewer (Nat.le_add_right _ _)

end Hinting.Machine
