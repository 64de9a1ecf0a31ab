import Hinting.Proofs.Stepping.Requests

/-!
A step budget as a cut-off.

With a budget a run goes the way that it goes without one, up to the step that exceeds the budget.
The run fails there, and the failure passes through all active programs.
-/

namespace Hinting.Machine

/-! ## Changing the budget -/

def withBudget (budget : Option Nat) (machine : Machine) : Machine :=
  { machine with limits := { machine.limits with maxSteps := budget } }

section

variable (budget : Option Nat) (machine : Machine)

@[simp] theorem withBudget_font : (withBudget budget machine).font = machine.font := rfl

@[simp] theorem withBudget_functions :
    (withBudget budget machine).functions = machine.functions := rfl

@[simp] theorem withBudget_capture : (withBudget budget machine).capture = machine.capture := rfl

@[simp] theorem withBudget_fontProgram? :
    (withBudget budget machine).fontProgram? = machine.fontProgram? := rfl

@[simp] theorem withBudget_fontProgramLoaded :
    (withBudget budget machine).fontProgramLoaded = machine.fontProgramLoaded := rfl

@[simp] theorem withBudget_inFontProgram :
    (withBudget budget machine).inFontProgram = machine.inFontProgram := rfl

@[simp] theorem withBudget_primed : (withBudget budget machine).primed = machine.primed := rfl

end

def Progress.withBudget (budget : Option Nat) : Progress → Progress
  | running active callers machine => running active callers (machine.withBudget budget)
  | ended outcome => ended (outcome.onMachine (Machine.withBudget budget))

/-- The action does the same with every budget. -/
def Unbudgeted (action : MachineAction α) : Prop :=
  ∀ budget machine, action (withBudget budget machine) =
    Outcome.onMachine (withBudget budget) (action machine)

theorem inside_withBudget {machine after : Machine} (budget : Option Nat)
    (same : after.surroundings = machine.surroundings) :
    inside (withBudget budget machine).surroundings after = withBudget budget after := by
  change inside
    { machine.surroundings with
      limits := { machine.surroundings.limits with maxSteps := budget } } after = _
  rw [← same]
  rfl

namespace Unbudgeted

theorem of_oblivious {action : MachineAction α} (oblivious : Oblivious action) :
    Unbudgeted action := by
  intro budget machine
  have same := oblivious.surroundings_eq machine
  have acted : action (withBudget budget machine) = Outcome.onMachine _ (action machine) :=
    oblivious (withBudget budget machine).surroundings machine
  rw [acted]
  cases ends : action machine with
  | ok result after =>
      rw [ends] at same
      exact congrArg _ (inside_withBudget budget same)
  | error failure after =>
      rw [ends] at same
      exact congrArg _ (inside_withBudget budget same)

theorem enter (invocation : Invocation) (body : Program) : Unbudgeted (enter invocation body) := by
  intro budget machine
  rw [enter_apply, enter_apply]
  change (if machine.limits.maxCallDepth ≤ machine.callDepth then _ else _) = _
  split
  · rfl
  · rfl

theorem enterDefined (invocation : Invocation) : Unbudgeted (enterDefined invocation) := by
  intro budget machine
  rw [enterDefined_apply, enterDefined_apply, withBudget_functions]
  cases machine.functions.get? invocation.id with
  | some body => exact enter invocation body budget machine
  | none => rfl

theorem invoke (invocation : Invocation) : Unbudgeted (invoke invocation) := by
  intro budget machine
  let resolving := { machine with journal := .resolving invocation.id :: machine.journal }
  rw [invoke_apply, invoke_apply, withBudget_functions, withBudget_fontProgram?,
    withBudget_inFontProgram]
  split
  · exact enterDefined invocation budget machine
  · cases machine.fontProgram? with
    | error malformation => rfl
    | ok found =>
        cases found with
        | none => exact enterDefined invocation budget resolving
        | some program => rfl

end Unbudgeted

/-! ## States -/

theorem abandon_withBudget (purpose : Purpose) (budget : Option Nat) (machine : Machine) :
    purpose.abandon (withBudget budget machine) = withBudget budget (purpose.abandon machine) := by
  cases purpose with
  | _ => rfl

theorem fail_withBudget (purpose : Purpose) (callers : List Caller) (failure : Failure)
    (budget : Option Nat) (machine : Machine) :
    fail purpose callers failure (withBudget budget machine) =
      Outcome.onMachine (withBudget budget) (fail purpose callers failure machine) := by
  induction callers generalizing purpose failure machine with
  | nil =>
      rw [fail, fail, abandon_withBudget]
      rfl
  | cons caller callers induction =>
      rw [fail, fail, abandon_withBudget, induction]

theorem await_withBudget (caller : Caller) (callers : List Caller) (budget : Option Nat)
    (outcome : Outcome Activation) :
    await caller callers (Outcome.onMachine (withBudget budget) outcome) =
      (await caller callers outcome).withBudget budget := by
  cases outcome with
  | ok active machine => rfl
  | error failure machine => exact congrArg Progress.ended (fail_withBudget _ _ _ _ _)

variable (active : Activation) (callers : List Caller) (budget : Option Nat)

theorem proceed_withBudget (site : Context) (outcome : Outcome Effect) :
    proceed active callers site (Outcome.onMachine (withBudget budget) outcome) =
      (proceed active callers site outcome).withBudget budget := by
  cases outcome with
  | ok effect machine =>
      cases effect with
      | goOn pass => rfl
      | call invocation =>
          have invoked := Unbudgeted.invoke invocation budget machine
          rw [Outcome.onMachine, proceed, invoked, await_withBudget]
          rfl
  | error failure machine => exact congrArg Progress.ended (fail_withBudget _ _ _ _ _)

theorem succeed_withBudget (purpose : Purpose) (machine : Machine) :
    succeed purpose callers (withBudget budget machine) =
      (succeed purpose callers machine).withBudget budget := by
  cases purpose with
  | fontProgram =>
      cases callers with
      | nil => rfl
      | cons caller callers =>
          rw [succeed, succeed, ← await_withBudget, ← Unbudgeted.enterDefined]
          rfl
  | _ => rfl

theorem finishWhole_withBudget (purpose : Purpose) (machine : Machine) :
    finishWhole purpose callers (withBudget budget machine) =
      (finishWhole purpose callers machine).withBudget budget := by
  rw [finishWhole, finishWhole, withBudget_capture]
  cases machine.capture with
  | some capture => exact congrArg Progress.ended (fail_withBudget _ _ _ _ _)
  | none => exact succeed_withBudget callers budget purpose machine

/-! ## Steps -/

variable {active callers} {limit : Nat} {machine : Machine}

theorem tick_withBudget_of_le (unlimited : machine.limits.maxSteps = none)
    (affordable : machine.steps + 1 ≤ limit) :
    tick (withBudget (some limit) machine) =
      Outcome.onMachine (withBudget (some limit)) (tick machine) := by
  rw [tick_unlimited unlimited, tick_apply]
  exact if_neg (Nat.not_lt_of_le affordable)

theorem tick_withBudget_of_lt (exceeded : limit < machine.steps + 1) :
    tick (withBudget (some limit) machine) =
      .error { cause := .stepLimitExceeded limit }
        (withBudget (some limit) machine |>.charged 1) := by
  rw [tick_apply]
  exact if_pos exceeded

theorem fetch_withBudget_of_le (unlimited : machine.limits.maxSteps = none)
    (affordable : machine.steps + 1 ≤ limit) (index : Nat) (instruction : Instruction)
    (rest : Program) :
    fetch index instruction rest (withBudget (some limit) machine) =
      Outcome.onMachine (withBudget (some limit)) (fetch index instruction rest machine) := by
  rw [fetch, bind_apply, bind_apply, tick_withBudget_of_le unlimited affordable]
  cases tick machine with
  | ok result after =>
      exact Unbudgeted.of_oblivious (.attempt index instruction rest) (some limit) after
  | error failure after => rfl

theorem advance_withBudget_of_le (unlimited : machine.limits.maxSteps = none)
    (affordable : machine.steps + active.cost ≤ limit) :
    advance active callers (withBudget (some limit) machine) =
      (advance active callers machine).withBudget (some limit) := by
  rw [advance, advance]
  cases fetched : active.program[active.index]? with
  | some instruction =>
      rw [Activation.cost, fetched] at affordable
      dsimp only
      rw [fetch_withBudget_of_le unlimited affordable, proceed_withBudget]
  | none =>
      rw [Activation.cost, fetched] at affordable
      dsimp only
      rw [finish, finish]
      cases purpose : active.purpose with
      | function id more =>
          cases more with
          | zero => cases callers <;> rfl
          | succ more =>
              rw [purpose] at affordable
              dsimp only
              rw [finishBody, finishBody, tick_withBudget_of_le unlimited affordable]
              cases tick machine with
              | ok result after => rfl
              | error failure after => exact congrArg Progress.ended (fail_withBudget _ _ _ _ _)
      | _ => exact finishWhole_withBudget callers _ _ machine

/-- A state in which the run has failed at the step that exceeds the budget. -/
def Progress.Exhausted (limit : Nat) : Progress → Prop
  | running _ _ _ => False
  | ended outcome => FailsWith (.stepLimitExceeded limit) outcome ∧
      (Outcome.machine outcome).steps = limit + 1

theorem exhausted_fail (purpose : Purpose) (counted : machine.steps = limit + 1) :
    (Progress.ended (fail purpose callers { cause := .stepLimitExceeded limit } machine)).Exhausted
      limit :=
  ⟨failsWith_fail _ _ _ _, (machine_fail _ _ _ _).2.trans counted⟩

theorem advance_of_tick_error {failure : Failure} {after : Machine} (counted : active.cost = 1)
    (stopped : tick machine = .error failure after) :
    ∃ purpose, advance active callers machine = .ended (fail purpose callers failure after) := by
  rw [advance]
  rw [Activation.cost] at counted
  cases fetched : active.program[active.index]? with
  | some instruction =>
      dsimp only
      rw [fetch, bind_apply_of_error stopped]
      exact ⟨active.purpose, rfl⟩
  | none =>
      rw [fetched] at counted
      dsimp only at counted ⊢
      rw [finish]
      cases purpose : active.purpose with
      | function id more =>
          rw [purpose] at counted
          cases more with
          | zero => cases counted
          | succ more =>
              dsimp only
              rw [finishBody, stopped]
              exact ⟨.function id more, rfl⟩
      | _ =>
          rw [purpose] at counted
          cases counted

theorem advance_withBudget_of_lt (allowed : machine.steps ≤ limit)
    (exceeded : limit < machine.steps + active.cost) :
    (advance active callers (withBudget (some limit) machine)).Exhausted limit := by
  have single := active.cost_le_one
  have counted : active.cost = 1 := by omega
  have last : machine.steps + 1 = limit + 1 := by omega
  have beyond : limit < machine.steps + 1 := by omega
  rcases advance_of_tick_error counted (tick_withBudget_of_lt beyond) with ⟨purpose, ends⟩
  rw [ends]
  exact exhausted_fail purpose last

/-! ## Runs -/

theorem Reaches.withBudget {first : Progress} {outcome : Outcome Unit}
    (reaches : Reaches first (.ended outcome)) (unlimited : first.machine.limits.maxSteps = none)
    (allowed : first.machine.steps ≤ limit) :
    (Outcome.machine outcome).steps ≤ limit ∧
        Reaches (first.withBudget (some limit))
          (.ended (outcome.onMachine (Machine.withBudget (some limit)))) ∨
      limit < (Outcome.machine outcome).steps ∧
        ∃ last, last.Exhausted limit ∧ Reaches (first.withBudget (some limit)) last := by
  -- The induction follows the run without a budget: its remaining steps bound the count from below.
  induction reaches using Relation.ReflTransGen.head_induction_on with
  | refl => exact .inl ⟨allowed, .refl⟩
  | head follows rest induction =>
      cases follows with
      | advance active callers machine =>
          change machine.limits.maxSteps = none at unlimited
          have stepped := Reaches.step active callers (Machine.withBudget (some limit) machine)
          by_cases affordable : machine.steps + active.cost ≤ limit
          · rw [advance_withBudget_of_le unlimited affordable] at stepped
            exact (induction (by rwa [limits_advance]) (by rwa [steps_advance])).imp
              (fun ⟨within, ends⟩ => ⟨within, stepped.trans ends⟩)
              fun ⟨exceeds, last, exhausted, ends⟩ => ⟨exceeds, last, exhausted, stepped.trans ends⟩
          · have exceeded := Nat.lt_of_not_le affordable
            have counted := Reaches.steps_le rest
            rw [steps_advance] at counted
            exact .inr ⟨Nat.lt_of_lt_of_le exceeded counted, _,
              advance_withBudget_of_lt allowed exceeded, stepped⟩

/-! ## Requests -/

theorem Unbudgeted.requestEnter (request : Request) : Unbudgeted request.enter := by
  intro budget machine
  cases request with
  | executeProgram program => rfl
  | executeBytes bytes =>
      rw [Request.enter]
      cases decode bytes with
      | ok program => rfl
      | error malformation => rfl
  | prime =>
      rw [Request.enter_prime, Request.enter_prime, withBudget_primed, withBudget_font]
      split
      · rfl
      · cases machine.font with
        | none => rfl
        | some font =>
            dsimp only
            cases font.controlValueProgram with
            | none => rfl
            | some bytes =>
                dsimp only
                cases decode bytes with
                | ok program => rfl
                | error malformation => rfl
  | loadFontProgram =>
      rw [Request.enter_loadFontProgram, Request.enter_loadFontProgram,
        withBudget_fontProgramLoaded, withBudget_fontProgram?]
      split
      · rfl
      · cases machine.fontProgram? with
        | error malformation => rfl
        | ok found =>
            cases found with
            | none => rfl
            | some program => rfl

theorem begin_withBudget (request : Request) (budget : Option Nat) (machine : Machine) :
    request.begin (withBudget budget machine) = (request.begin machine).withBudget budget := by
  rw [Request.begin, Request.begin, Unbudgeted.requestEnter]
  cases request.enter machine with
  | error failure after => rfl
  | ok entry after =>
      cases entry with
      | none => rfl
      | some active => rfl

theorem Reaches.ended_unique {first : Progress} {left right : Outcome Unit}
    (reachesLeft : Reaches first (.ended left)) (reachesRight : Reaches first (.ended right)) :
    left = right := by
  cases (reachesLeft.onward reachesRight).eq_of_ended
  rfl

/-- With a budget of `limit` steps the action does what it does without a budget if that takes no
more steps, and otherwise fails at the first step beyond. -/
def CutsOff (limit : Nat) (action : MachineAction Unit) (machine : Machine) : Prop :=
  let unlimited := action (machine.withBudget none)
  let limited := action (machine.withBudget (some limit))
  ((Outcome.machine unlimited).steps ≤ limit →
      limited = Outcome.onMachine (withBudget (some limit)) unlimited) ∧
    (limit < (Outcome.machine unlimited).steps →
      FailsWith (.stepLimitExceeded limit) limited ∧ (Outcome.machine limited).steps = limit + 1)

theorem AtRest.withBudget {machine : Machine} (rest : machine.AtRest) (budget : Option Nat) :
    (machine.withBudget budget).AtRest :=
  { rest with }

theorem AtRest.cutsOff_request {machine : Machine} (rest : machine.AtRest) (limit : Nat)
    (request : Request) (runs : request.Runs machine) : CutsOff limit request.perform machine := by
  rcases runs with ⟨active, after, entered⟩
  have begins : ∀ budget, request.begin (machine.withBudget budget) =
      .running active [] (after.withBudget budget) := by
    intro budget
    rw [begin_withBudget, Request.begin, entered]
    rfl
  have unlimited := (rest.withBudget none).reaches_perform request
  have limited := (rest.withBudget (some limit)).reaches_perform request
  rw [begins] at unlimited limited
  have allowed : after.steps ≤ limit :=
    Nat.le_trans (Nat.le_of_eq (rest.begins_enter request entered).steps) (Nat.zero_le _)
  rcases Reaches.withBudget unlimited rfl allowed with
    ⟨within, same⟩ | ⟨exceeded, last, exhausted, stopped⟩
  · exact ⟨fun _ => limited.ended_unique same,
      fun exceeded => absurd within (Nat.not_le_of_lt exceeded)⟩
  · cases last with
    | running _ _ _ => exact exhausted.elim
    | ended outcome =>
        cases limited.ended_unique stopped
        exact ⟨fun within => absurd within (Nat.not_le_of_lt exceeded), fun _ => exhausted⟩

/-- The budget cuts off every run of a program exactly. What is compared with it is the number of
instructions fetched and function bodies entered, in whatever program. -/
theorem AtRest.cutsOff {machine : Machine} (rest : machine.AtRest) (limit : Nat) :
    (∀ program, CutsOff limit (executeProgram program) machine) ∧
      (Request.prime.Runs machine → CutsOff limit prime machine) ∧
      (Request.loadFontProgram.Runs machine → CutsOff limit loadFontProgram machine) ∧
      ∀ active callers after,
        (advance active callers after).machine.steps = after.steps + active.cost :=
  ⟨fun program => rest.cutsOff_request limit (.executeProgram program) ⟨_, _, rfl⟩,
    rest.cutsOff_request limit .prime, rest.cutsOff_request limit .loadFontProgram,
    steps_advance⟩

/-- Two fetches, three fetches in the font program that the call asks for, and three entries of the
empty body that is found there. -/
theorem cutsOff_loopCall :
    let font : FontTables :=
      { fontProgram := some [0xB0, 5, 0x2C, 0x2D]
        controlValueProgram := some [0xB1, 3, 5, 0x2A] }
    let machine := withFont {} font
    let program : Program := [.push (.ofBytes [3, 5]), .control .loopCall]
    (FailsWith (.stepLimitExceeded 7) (executeProgram program (machine.withBudget (some 7))) ∧
        (Outcome.machine (executeProgram program (machine.withBudget (some 7)))).steps = 8) ∧
      executeProgram program (machine.withBudget (some 8)) =
        Outcome.onMachine (withBudget (some 8)) (executeProgram program (machine.withBudget none)) ∧
      (FailsWith (.stepLimitExceeded 5) (prime (machine.withBudget (some 5))) ∧
        (Outcome.machine (prime (machine.withBudget (some 5)))).steps = 6) ∧
      FailsWith (.stepLimitExceeded 2) (loadFontProgram (machine.withBudget (some 2))) ∧
        (Outcome.machine (loadFontProgram (machine.withBudget (some 2)))).steps = 3 := by
  intro font machine program
  have rest : machine.AtRest := atRest_withFont {} font
  exact ⟨((rest.cutsOff 7).1 program).2 (by decide +kernel),
    ((rest.cutsOff 8).1 program).1 (by decide +kernel),
    ((rest.cutsOff 5).2.1 ⟨_, _, rfl⟩).2 (by decide +kernel),
    ((rest.cutsOff 2).2.2.1 ⟨_, _, rfl⟩).2 (by decide +kernel)⟩

end Hinting.Machine
