import Hinting.Proofs.Memory.Atomicity
import Hinting.Proofs.Stepping.Calling

/-!
How deep programs are nested, and what failures tell of it.

A failure passes every active program once on its way out, so that it has come out of no more
functions than bodies were active.
-/

namespace Hinting

theorem Memory.raises_part {action : MemoryAction α} (part : Instruction.MemoryPart action) :
    Raises Fault.ConcernsData action := by
  cases part with
  | require needed => exact compositional_raises.require needed
  | peek depth => exact compositional_raises.peek depth
  | pop => exact compositional_raises.lift compositional_raises.stack.pop
  | popTwo => exact compositional_raises.popTwo
  | toIndex value kind => exact compositional_raises.toIndex value kind
  | data named => exact raises_memoryAction named

namespace Machine

/-! ## Contexts -/

def Context.isFunction : Context → Bool
  | .function _ => true
  | _ => false

def functionContexts (trail : List Context) : Nat :=
  trail.countP Context.isFunction

def fontProgramContexts (trail : List Context) : Nat :=
  trail.count .fontProgram

/-- `number` counts the contexts that the programs counted by `active` put around failures. Neither
other programs nor calls put them there. -/
structure Marks (number : List Context → Nat) (active : List Purpose → Nat) : Prop where
  bare : number [] = 0 ∧ active [] = 0
  instruction (mnemonic : String) (index : Nat) (trail : List Context) :
    number (.instruction mnemonic index :: trail) = number trail
  decoding (trail : List Context) :
    number (.fontProgramDecoding :: trail) = number trail ∧
      number (.controlValueProgramDecoding :: trail) = number trail
  grows (purpose : Purpose) (others : List Purpose) : active others ≤ active (purpose :: others)
  around (purpose : Purpose) (failure : Failure) (others : List Purpose) :
    number (purpose.around failure).trail + active others =
      number failure.trail + active (purpose :: others)

theorem marks_functions : Marks functionContexts functionBodies where
  bare := ⟨rfl, rfl⟩
  instruction _ _ _ := List.countP_cons_of_neg (by simp [Context.isFunction])
  decoding _ :=
    ⟨List.countP_cons_of_neg (by simp [Context.isFunction]),
      List.countP_cons_of_neg (by simp [Context.isFunction])⟩
  grows purpose others := (List.sublist_cons_self purpose others).countP_le
  around purpose failure others := by
    cases purpose with
    | function id more =>
        simp [Purpose.around, functionContexts, List.countP_cons, Context.isFunction]
        omega
    | _ =>
        simp [Purpose.around, functionContexts, functionBodies, Context.isFunction,
          Purpose.isFunction]

theorem marks_fontPrograms : Marks fontProgramContexts fontPrograms where
  bare := ⟨rfl, rfl⟩
  instruction _ _ _ := List.count_cons_of_ne (by simp)
  decoding _ := ⟨List.count_cons_of_ne (by simp), List.count_cons_of_ne (by simp)⟩
  grows purpose others := (List.sublist_cons_self purpose others).count_le _
  around purpose failure others := by
    cases purpose with
    | fontProgram =>
        simp [Purpose.around, fontProgramContexts]
        omega
    | _ => simp [Purpose.around, fontProgramContexts, fontPrograms]

section

variable {number : List Context → Nat} {counted : List Purpose → Nat} {active : Activation}
  {callers : List Caller} {machine after : Machine} {failure : Failure}

namespace Marks

variable (marks : Marks number counted)

include marks

theorem fail {purpose : Purpose} {inner : Failure}
    (waits : ∀ caller ∈ callers, caller.Waits)
    (fails : fail purpose callers inner machine = .error failure after) :
    number failure.trail =
      number inner.trail + counted (purpose :: callers.map fun caller => caller.purpose) := by
  induction callers generalizing purpose inner machine with
  | nil =>
      cases fails
      have around := marks.around purpose inner []
      rw [marks.bare.2] at around
      exact around
  | cons caller callers induction =>
      rcases List.forall_mem_cons.mp waits with ⟨⟨_, _, _, _, _, _, _, site⟩, waits⟩
      have passed := induction waits fails
      rw [Failure.trail_within, site, marks.instruction] at passed
      exact passed.trans (marks.around purpose inner _)

theorem reenter (id : UInt32) (more : Nat) (others : List Purpose) :
    counted (.function id more :: others) = counted (.function id (more + 1) :: others) := by
  have now := marks.around (.function id more) { cause := .unresolvedFunction id } others
  have before := marks.around (.function id (more + 1)) { cause := .unresolvedFunction id } others
  exact Nat.add_left_cancel (now.symm.trans before)

theorem collapses {raised : Failure} (waits : ∀ caller ∈ callers, caller.Waits)
    (collapses : Collapses active callers machine raised (.error failure after)) :
    number failure.trail ≤ counted (purposes active callers) := by
  generalize outcome : (.error failure after : Outcome Unit) = ended at collapses
  have bare : number [] = 0 := marks.bare.1
  cases collapses with
  | @instruction instruction raised left found fetched =>
      have passed := marks.fail waits outcome.symm
      have inner : number raised.trail = 0 := by
        rcases trail_of_fetch fetched with ⟨empty, _⟩ | site
        · rw [empty, bare]
        · rw [site, marks.instruction, bare]
      rw [inner, Nat.zero_add] at passed
      exact Nat.le_of_eq passed
  | @call instruction invocation raised middle left found fetched invoked =>
      have passed := marks.fail waits outcome.symm
      have inner : number raised.trail = 0 := by
        rcases trail_of_invoke invoked with empty | ⟨_, _, _, _, rfl⟩
        · rw [empty, bare]
        · rw [(marks.decoding []).1, bare]
      rw [Failure.trail_within, marks.instruction, inner, Nat.zero_add] at passed
      exact Nat.le_of_eq passed
  | @entry id more raised left atEnd purpose ticked =>
      have passed := marks.fail waits outcome.symm
      rcases eq_of_tick ticked with ⟨limit, rfl⟩
      rw [bare, Nat.zero_add, marks.reenter, ← purpose] at passed
      exact Nat.le_of_eq passed
  | @openEnd capture atEnd whole opened =>
      have passed := marks.fail waits outcome.symm
      rw [bare, Nat.zero_add] at passed
      exact Nat.le_of_eq passed
  | @resolution caller others raised left atEnd purpose waiting closed entered =>
      subst waiting
      rcases List.forall_mem_cons.mp waits with ⟨⟨_, _, _, _, _, _, _, site⟩, waits⟩
      have passed := marks.fail waits outcome.symm
      rw [Failure.trail_within, site, marks.instruction, trail_of_enterDefined entered, bare,
        Nat.zero_add] at passed
      rw [passed]
      exact marks.grows active.purpose (purposes caller.toActivation others)

end Marks

/-! ## Ways out -/

/-- The machine when a failure has come out of these programs, the innermost first. -/
def abandonAll (purposes : List Purpose) (machine : Machine) : Machine :=
  purposes.foldl (fun machine purpose => purpose.abandon machine) machine

theorem fail_append (purpose : Purpose) (passed : List Caller) (caller : Caller)
    (callers : List Caller) (failure : Failure) (machine : Machine) :
    ∃ outer, Machine.fail purpose (passed ++ caller :: callers) failure machine =
      Machine.fail caller.purpose callers outer
        (abandonAll (purpose :: passed.map fun caller => caller.purpose) machine) := by
  induction passed generalizing purpose failure machine with
  | nil => exact ⟨_, rfl⟩
  | cons next passed induction => exact induction _ _ _

theorem machine_fail_eq_abandonAll (purpose : Purpose) (callers : List Caller) (failure : Failure)
    (machine : Machine) :
    Outcome.machine (Machine.fail purpose callers failure machine) =
      abandonAll (purpose :: callers.map fun caller => caller.purpose) machine := by
  induction callers generalizing purpose failure machine with
  | nil => rfl
  | cons caller callers induction => exact induction _ _ _

theorem callDepth_abandonAll {failed left : List Purpose}
    (depth : machine.callDepth = functionBodies (failed ++ left)) :
    (abandonAll failed machine).callDepth = functionBodies left := by
  induction failed generalizing machine with
  | nil => exact depth
  | cons purpose failed induction =>
      refine induction ?_
      cases purpose with
      | function id more =>
          rw [List.cons_append, functionBodies_function] at depth
          exact (congrArg (· - 1) depth).trans (Nat.add_sub_cancel _ 1)
      | _ => exact depth

/-! ## The limit -/

/-- The failure is not that of a call at the limit. -/
def BelowLimit (failure : Failure) : Prop :=
  ∀ limit, failure.cause ≠ .callDepthExceeded limit

theorem belowLimit_of_concernsData {cause : Fault} (concerns : cause.ConcernsData) :
    BelowLimit { cause } := by
  intro limit exceeded
  subst exceeded
  exact concerns

theorem compositional_belowLimit : Compositional fun action => Raises BelowLimit action where
  strayEnd := Raises.get.bind fun _ => .throw nofun
  pure := .pure
  unbalanced := .throw nofun
  bind := .bind
  onMemory part := by
    intro machine failure after fails
    rw [onMemory] at fails
    split at fails <;> cases fails
    next acted => exact belowLimit_of_concernsData (Memory.raises_part part _ _ _ acted)

theorem raises_fetch (index : Nat) (instruction : Instruction) (rest : Program) :
    Raises BelowLimit (fetch index instruction rest) := by
  have ticks : Raises BelowLimit tick := by
    intro machine failure after fails
    rcases eq_of_tick fails with ⟨limit, rfl⟩
    exact nofun
  refine ticks.bind fun _ => Raises.get.bind fun machine => ?_
  cases machine.capture with
  | some capture =>
      refine .bind ?_ fun _ => .pure _
      intro machine failure after fails
      rw [eq_of_record fails]
      exact nofun
  | none =>
      refine .bind (.modify _) fun _ => ?_
      intro machine failure after fails
      rw [within] at fails
      split at fails
      · cases fails
      · next inner _ carried =>
          have bare : BelowLimit inner :=
            compositional_belowLimit.carryOut rest instruction (fun _ _ => .modify _) _ _ _ carried
          cases fails
          exact bare

/-- A call is made of a function that is defined by then. It is found at once, or the font program
that was run for the call ends. -/
inductive CallsDefined (active : Activation) (callers : List Caller) (machine : Machine) : Prop
  | atOnce {instruction : Instruction} {invocation : Invocation} {below : List Value}
      {body : Program} (calling : Calling active machine instruction invocation below)
      (defined : machine.functions.get? invocation.id = some body)
  | behindFontProgram {caller : Caller} {others : List Caller} {body : Program}
      (atEnd : active.program[active.index]? = none) (purpose : active.purpose = .fontProgram)
      (closed : machine.capture = none) (waiting : callers = caller :: others)
      (waits : caller.Waits) (defined : machine.functions.get? caller.invocation.id = some body)

section

variable {invocation : Invocation} {limit : Nat}

theorem defined_of_enterDefined (fails : enterDefined invocation machine = .error failure after)
    (exceeded : failure.cause = .callDepthExceeded limit) :
    limit = machine.limits.maxCallDepth ∧ machine.limits.maxCallDepth ≤ machine.callDepth ∧
      ∃ body, machine.functions.get? invocation.id = some body := by
  rw [enterDefined_apply] at fails
  split at fails
  · next body defined =>
      rw [enter_apply] at fails
      split at fails <;> cases fails
      next full =>
        cases exceeded
        exact ⟨rfl, full, body, defined⟩
  · cases fails
    cases exceeded

theorem defined_of_invoke (fails : invoke invocation machine = .error failure after)
    (exceeded : failure.cause = .callDepthExceeded limit) :
    limit = machine.limits.maxCallDepth ∧ machine.limits.maxCallDepth ≤ machine.callDepth ∧
      ∃ body, machine.functions.get? invocation.id = some body := by
  rw [invoke_apply] at fails
  split at fails
  · exact defined_of_enterDefined fails exceeded
  · dsimp only at fails
    split at fails
    · have resolving := defined_of_enterDefined fails exceeded
      exact resolving
    · cases fails
    · cases fails
      cases exceeded

theorem enterDefined_of_full {body : Program}
    (full : machine.limits.maxCallDepth ≤ machine.callDepth)
    (defined : machine.functions.get? invocation.id = some body) :
    enterDefined invocation machine =
      .error { cause := .callDepthExceeded machine.limits.maxCallDepth } machine := by
  rw [enterDefined_apply, defined]
  dsimp only
  rw [enter_apply, if_pos full]

theorem invoke_of_full {body : Program} (full : machine.limits.maxCallDepth ≤ machine.callDepth)
    (defined : machine.functions.get? invocation.id = some body) :
    invoke invocation machine =
      .error { cause := .callDepthExceeded machine.limits.maxCallDepth } machine := by
  rw [invoke_apply, if_pos (by rw [defined]; rfl), enterDefined_of_full full defined]

variable {limits : Limits}

theorem Nested.exceeds (nested : Nested limits active callers machine)
    (calls : CallsDefined active callers machine)
    (full : functionBodies (purposes active callers) = limits.maxCallDepth) :
    ∃ outcome, advance active callers machine = .ended outcome ∧
      FailsWith (.callDepthExceeded limits.maxCallDepth) outcome := by
  have reached : machine.limits.maxCallDepth ≤ machine.callDepth := by
    rw [nested.sameLimits, nested.callDepth]
    exact Nat.le_of_eq full.symm
  let raised : Failure := { cause := .callDepthExceeded machine.limits.maxCallDepth }
  rw [← nested.sameLimits]
  cases calls with
  | @atOnce instruction invocation below body calling defined =>
      let called := (machine.fetched active.index instruction).withValues below
      have refused : invoke invocation called = .error raised called :=
        invoke_of_full reached defined
      have ended : advance active callers machine =
          .ended (fail active.purpose callers
            (raised.within (.instruction instruction.mnemonic active.index)) called) := by
        rw [calling.advance, refused]
        rfl
      exact ⟨_, ended, failsWith_fail _ _ _ _⟩
  | @behindFontProgram caller others body atEnd purpose closed waiting waits defined =>
      subst waiting
      have resolved : enterDefined caller.invocation machine.leaveFontProgram =
          .error raised machine.leaveFontProgram :=
        enterDefined_of_full reached defined
      have ended : advance active (caller :: others) machine =
          .ended (fail caller.purpose others (raised.within caller.site)
            machine.leaveFontProgram) := by
        rw [advance, atEnd]
        dsimp only
        rw [finish, purpose]
        dsimp only
        rw [finishWhole, closed]
        dsimp only
        rw [succeed, resolved]
        rfl
      exact ⟨_, ended, failsWith_fail _ _ _ _⟩

theorem Nested.callsDefined {raised : Failure} (nested : Nested limits active callers machine)
    (waits : ∀ caller ∈ callers, caller.Waits)
    (collapses : Collapses active callers machine raised (.error failure after))
    (exceeded : failure.cause = .callDepthExceeded limit) :
    limit = limits.maxCallDepth ∧ CallsDefined active callers machine ∧
      functionBodies (purposes active callers) = limits.maxCallDepth := by
  -- The limit bounds the depth from above, and the failed call bounds it from below.
  have full : machine.limits.maxCallDepth ≤ machine.callDepth →
      functionBodies (purposes active callers) = limits.maxCallDepth := by
    intro reached
    rw [nested.sameLimits] at reached
    rw [← nested.callDepth]
    exact Nat.le_antisymm nested.bounded reached
  have cause : raised.cause = .callDepthExceeded limit :=
    collapses.carries.cause.symm.trans exceeded
  generalize (.error failure after : Outcome Unit) = ended at collapses
  cases collapses with
  | @instruction instruction raised left found fetched =>
      exact absurd cause (raises_fetch _ _ _ _ _ _ fetched limit)
  | @call instruction invocation raised middle left found fetched invoked =>
      rcases calling_of_fetch found fetched with ⟨below, calling, rfl⟩
      rcases defined_of_invoke invoked cause with ⟨same, reached, body, defined⟩
      refine ⟨same.trans ?_, .atOnce calling defined, full reached⟩
      exact congrArg Limits.maxCallDepth nested.sameLimits
  | @entry id more raised left atEnd purpose ticked =>
      rcases eq_of_tick ticked with ⟨budget, rfl⟩
      cases cause
  | @openEnd capture atEnd whole opened => cases cause
  | @resolution caller others raised left atEnd purpose waiting closed entered =>
      rcases defined_of_enterDefined entered cause with ⟨same, reached, body, defined⟩
      have waitsHere : caller.Waits := waits caller (by simp [waiting])
      refine ⟨same.trans ?_, .behindFontProgram atEnd purpose closed waiting waitsHere defined,
        full reached⟩
      exact congrArg Limits.maxCallDepth nested.sameLimits

end

end

end Machine

end Hinting
