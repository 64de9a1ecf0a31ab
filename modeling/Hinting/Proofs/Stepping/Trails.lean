import Hinting.Proofs.Stepping.Collapse
import Hinting.Proofs.Stepping.Sources

/-!
The trails of failures.

A failure comes out of nested programs with the places that it has passed through. Read from the
outside they lead, call by call, from the program that was asked for to the instruction that failed.
-/

namespace Hinting

def Instruction.isCall : Instruction → Bool
  | .control .call => true
  | .control .loopCall => true
  | _ => false

/-- The failure is the other one on its way out: there are contexts around it, and nothing else has
changed. -/
structure Failure.Carries (failure raised : Failure) : Prop where
  trail : raised.trail <:+ failure.trail
  cause : failure.cause = raised.cause

namespace Failure.Carries

variable {failure middle raised : Failure}

theorem refl (failure : Failure) : failure.Carries failure :=
  ⟨List.suffix_refl _, rfl⟩

theorem trans (outer : failure.Carries middle) (inner : middle.Carries raised) :
    failure.Carries raised where
  trail := inner.trail.trans outer.trail
  cause := outer.cause.trans inner.cause

theorem within (failure : Failure) (context : Context) : (failure.within context).Carries failure :=
  ⟨List.suffix_cons _ _, rfl⟩

end Failure.Carries

namespace Machine

/-! ## Trails -/

/-- What a program fails with by itself, and not at one of its instructions. Only at the end of a
whole program an open definition is a failure. -/
inductive FailsBetween (whole : Bool) : Fault → Prop
  | budget (limit : Nat) : FailsBetween whole (.stepLimitExceeded limit)
  | nestedDefinition (id : UInt32) :
      FailsBetween whole (.illegalStateTransition .fdef (.capturing id))
  | unterminated (id : UInt32) (isWhole : whole = true) :
      FailsBetween whole (.unterminatedFunction id)

/-- The trail leads from the program to where it failed for this cause. Functions and the font
program are those of the machine. -/
inductive Traces (machine : Machine) : (whole : Bool) → Program → List Context → Fault → Prop
  | between {whole : Bool} {program : Program} {cause : Fault} (fails : FailsBetween whole cause) :
      Traces machine whole program [] cause
  | instruction {whole : Bool} {program : Program} {index : Nat} {instruction : Instruction}
      (found : program[index]? = some instruction) (cause : Fault) :
      Traces machine whole program [.instruction instruction.mnemonic index] cause
  | fontProgramDecoding {whole : Bool} {program : Program} {index : Nat} {instruction : Instruction}
      {bytes : List UInt8} {malformation : Malformation}
      (found : program[index]? = some instruction) (calls : instruction.isCall = true)
      (offered : machine.font.bind FontTables.fontProgram = some bytes)
      (malformed : decode bytes = .error malformation) :
      Traces machine whole program
        [.instruction instruction.mnemonic index, .fontProgramDecoding]
        (.malformedProgram malformation)
  | fontProgram {whole : Bool} {program fontProgram : Program} {index : Nat}
      {instruction : Instruction} {bytes : List UInt8} {trail : List Context} {cause : Fault}
      (found : program[index]? = some instruction) (calls : instruction.isCall = true)
      (offered : machine.font.bind FontTables.fontProgram = some bytes)
      (decoded : decode bytes = .ok fontProgram)
      (inner : Traces machine true fontProgram trail cause) :
      Traces machine whole program
        (.instruction instruction.mnemonic index :: .fontProgram :: trail) cause
  | function {whole : Bool} {program body : Program} {index : Nat} {instruction : Instruction}
      {id : UInt32} {trail : List Context} {cause : Fault}
      (found : program[index]? = some instruction) (calls : instruction.isCall = true)
      (defined : machine.functions.get? id = some body)
      (inner : Traces machine false body trail cause) :
      Traces machine whole program
        (.instruction instruction.mnemonic index :: .function id :: trail) cause

/-! ## Where calls are made -/

/-- The caller waits at a call, which its site names. -/
def Caller.Sited (caller : Caller) : Prop :=
  ∃ index instruction, caller.program[index]? = some instruction ∧ instruction.isCall = true ∧
    caller.site = .instruction instruction.mnemonic index

def Progress.Callers (holds : Caller → Prop) : Progress → Prop
  | running _ callers _ => ∀ caller ∈ callers, holds caller
  | ended _ => True

def Effect.Calls (instruction : Instruction) : Effect → Prop
  | .goOn _ => True
  | .call _ => instruction.isCall = true

theorem returns_carryOut_calls (rest : Program) (instruction : Instruction) :
    Returns (Effect.Calls instruction) (carryOut rest instruction) := by
  have executed : Returns (Effect.Calls instruction)
      (do return .goOn (← execute (fun _ _ => pure ()) rest instruction)) :=
    .bind fun _ => .pure trivial
  cases instruction with
  | control operation =>
      cases operation with
      | call => exact .bind fun _ => .bind fun _ => .pure rfl
      | loopCall =>
          refine .bind fun _ => .bind fun _ => .bind fun count => .bind fun _ => .pure ?_
          split
          · exact rfl
          · trivial
      | _ => exact executed
  | _ => exact executed

theorem returns_fetch_calls (index : Nat) (instruction : Instruction) (rest : Program) :
    Returns (Effect.Calls instruction) (fetch index instruction rest) := by
  refine .bind fun _ => .bind fun machine => ?_
  cases machine.capture with
  | some capture => exact .bind fun _ => .pure trivial
  | none => exact .bind fun _ => (returns_carryOut_calls rest instruction).within

section

variable {active : Activation} {callers : List Caller} {machine after : Machine}

theorem callers_await {holds : Caller → Prop} {caller : Caller}
    (waiting : ∀ other ∈ caller :: callers, holds other) (outcome : Outcome Activation) :
    (await caller callers outcome).Callers holds := by
  cases outcome with
  | ok active after => exact waiting
  | error failure after => trivial

theorem callers_finish {holds : Caller → Prop} (waiting : ∀ caller ∈ callers, holds caller) :
    (finish active callers machine).Callers holds := by
  rw [finish]
  split
  · next id more _ =>
      cases more with
      | zero =>
          cases callers with
          | nil => trivial
          | cons caller others => exact (List.forall_mem_cons.mp waiting).2
      | succ more =>
          rw [finishBody]
          cases tick machine with
          | ok result after => exact waiting
          | error failure after => trivial
  · rw [finishWhole]
    split
    · trivial
    · unfold succeed
      split
      · exact callers_await waiting _
      · trivial
      · trivial

theorem callers_advance {holds : Caller → Prop} (waiting : ∀ caller ∈ callers, holds caller)
    (calls : ∀ instruction invocation after, active.program[active.index]? = some instruction →
      fetch active.index instruction (active.program.drop (active.index + 1)) machine =
        .ok (.call invocation) after →
      holds (active.calling (.instruction instruction.mnemonic active.index) invocation)) :
    (advance active callers machine).Callers holds := by
  rw [advance]
  split
  · next instruction found =>
      cases fetched : fetch active.index instruction (active.program.drop (active.index + 1))
          machine with
      | error failure after => trivial
      | ok effect after =>
          cases effect with
          | goOn pass => exact waiting
          | call invocation =>
              have called := calls instruction invocation after found fetched
              exact callers_await (List.forall_mem_cons.mpr ⟨called, waiting⟩) _
  · exact callers_finish waiting

theorem Progress.Callers.of_reaches {holds : Caller → Prop} {first last : Progress}
    (waiting : first.Callers holds) (reaches : Reaches first last)
    (calls : ∀ (active : Activation) machine instruction invocation after,
      active.program[active.index]? = some instruction →
      fetch active.index instruction (active.program.drop (active.index + 1)) machine =
        .ok (.call invocation) after →
      holds (active.calling (.instruction instruction.mnemonic active.index) invocation)) :
    last.Callers holds :=
  reaches.lasts (fun active _ machine now => callers_advance now (calls active machine)) waiting

theorem sited_of_reaches {first last : Progress} (sited : first.Callers Caller.Sited)
    (reaches : Reaches first last) : last.Callers Caller.Sited := by
  refine Progress.Callers.of_reaches sited reaches ?_
  intro active machine instruction invocation after found fetched
  exact ⟨active.index, instruction, found, returns_fetch_calls _ _ _ _ _ _ fetched, rfl⟩

/-! ## The outermost program -/

def Progress.FromProgram : Progress → Prop
  | running active callers _ => (purposes active callers).getLast? = some .program
  | ended _ => True

theorem Advances.fromProgram {next : Progress} (step : Advances active callers machine next)
    (first : (purposes active callers).getLast? = some .program) : next.FromProgram := by
  cases step with
  | ends outcome limits steps => trivial
  | goesOn index after forward inside same => exact first
  | calls site invocation body after inside room same => exact first
  | startsFontProgram site invocation program after inside outside closed same => exact first
  | leavesFontProgram caller others body after purpose waiting room same =>
      subst waiting
      exact first
  | repeats id more after purpose same =>
      cases callers with
      | nil =>
          rw [purposes, purpose] at first
          cases first
      | cons caller others => exact first
  | returns id caller others after purpose waiting same =>
      subst waiting
      exact first

theorem Progress.FromProgram.of_reaches {first last : Progress} (fromProgram : first.FromProgram)
    (reaches : Reaches first last) : last.FromProgram :=
  reaches.lasts (fun active callers machine now =>
    (advances active callers machine).fromProgram now) fromProgram

end

/-! ## What a step fails with -/

/-- A step fails with this failure, before it makes its way out of the active programs. -/
def Breaks (active : Activation) (callers : List Caller) (machine : Machine) (raised : Failure) :
    Prop :=
  ∃ outcome, Collapses active callers machine raised outcome

theorem compositional_bare :
    Compositional fun action => Raises (fun failure => failure.trail = []) action where
  strayEnd := Raises.get.bind fun _ => .throw rfl
  pure := .pure
  unbalanced := .throw rfl
  bind := .bind
  onMemory _ := by
    intro machine failure after fails
    rw [onMemory] at fails
    split at fails <;> cases fails
    rfl

section

variable {machine after : Machine} {failure : Failure}

theorem eq_of_tick (fails : tick machine = .error failure after) :
    ∃ limit, failure = { cause := .stepLimitExceeded limit } := by
  rw [tick_apply] at fails
  split at fails
  · split at fails <;> cases fails
    exact ⟨_, rfl⟩
  · cases fails

theorem eq_of_record {capture : Capture} {instruction : Instruction}
    (fails : record capture instruction machine = .error failure after) :
    failure = { cause := .illegalStateTransition .fdef (.capturing capture.id) } := by
  unfold record at fails
  split at fails
  · rw [endFunction, get_bind_apply] at fails
    split at fails <;> cases fails
  · cases fails
    rfl
  · cases fails

theorem trail_of_attempt {index : Nat} {instruction : Instruction} {rest : Program}
    (fails : attempt index instruction rest machine = .error failure after) :
    (failure.trail = [] ∧ ∃ id, failure.cause = .illegalStateTransition .fdef (.capturing id)) ∨
      failure.trail = [.instruction instruction.mnemonic index] := by
  rw [attempt, get_bind_apply] at fails
  cases captured : machine.capture with
  | some capture =>
      rw [captured] at fails
      rcases bind_eq_error.mp fails with failed | ⟨_, _, _, impossible⟩
      · rw [eq_of_record failed]
        exact .inl ⟨rfl, capture.id, rfl⟩
      · cases impossible
  | none =>
      rw [captured] at fails
      rcases bind_eq_error.mp fails with impossible | ⟨_, middle, _, acted⟩
      · cases impossible
      · rw [within] at acted
        split at acted
        · cases acted
        · next inner _ carried =>
            cases acted
            have bare := compositional_bare.carryOut rest instruction (fun _ _ => .modify _)
              middle inner _ carried
            exact .inr (congrArg (List.cons _) bare)

theorem trail_of_fetch {index : Nat} {instruction : Instruction} {rest : Program}
    (fails : fetch index instruction rest machine = .error failure after) :
    (failure.trail = [] ∧ ∀ whole, FailsBetween whole failure.cause) ∨
      failure.trail = [.instruction instruction.mnemonic index] := by
  rcases bind_eq_error.mp fails with failed | ⟨_, counted, _, attempted⟩
  · rcases eq_of_tick failed with ⟨limit, rfl⟩
    exact .inl ⟨rfl, fun _ => .budget limit⟩
  · rcases trail_of_attempt attempted with ⟨bare, id, cause⟩ | passed
    · rw [cause]
      exact .inl ⟨bare, fun _ => .nestedDefinition id⟩
    · exact .inr passed

theorem trail_of_enterDefined {invocation : Invocation}
    (fails : enterDefined invocation machine = .error failure after) : failure.trail = [] := by
  rw [enterDefined_apply] at fails
  split at fails
  · rw [enter_apply] at fails
    split at fails <;> cases fails
    rfl
  · cases fails
    rfl

theorem trail_of_invoke {invocation : Invocation}
    (fails : invoke invocation machine = .error failure after) :
    failure.trail = [] ∨ ∃ bytes malformation,
      machine.font.bind FontTables.fontProgram = some bytes ∧ decode bytes = .error malformation ∧
        failure = ⟨[.fontProgramDecoding], .malformedProgram malformation⟩ := by
  rw [invoke_apply] at fails
  split at fails
  · exact .inl (trail_of_enterDefined fails)
  · dsimp only at fails
    split at fails
    · exact .inl (trail_of_enterDefined fails)
    · cases fails
    · next malformation malformed =>
        cases fails
        rcases exists_of_fontProgram?_eq_error malformed with ⟨bytes, offered, fails⟩
        exact .inr ⟨bytes, malformation, offered, fails, rfl⟩

end

/-! ## Out of nested programs -/

/-- What the trail of a failure is read off from: how the programs that are active come from the one
that was asked for. -/
structure Chained (program : Program) (active : Activation) (callers : List Caller)
    (machine : Machine) : Prop where
  sourced : AllSourced (.executeProgram program) active callers machine
  serving : Serving active callers
  sited : ∀ caller ∈ callers, caller.Sited
  fromProgram : (purposes active callers).getLast? = some .program

/-- A failure of the program leaves a trail, and what the step from this state fails with is found
unchanged at the end of it. -/
structure Explained (program : Program) (active : Activation) (callers : List Caller)
    (machine : Machine) (failure : Failure) (after : Machine) : Prop where
  traces : Traces after true program failure.trail failure.cause
  raised : ∃ raised, Breaks active callers machine raised ∧ failure.Carries raised

theorem carries_around (purpose : Purpose) (failure : Failure) :
    (purpose.around failure).Carries failure := by
  cases purpose with
  | program => exact .refl failure
  | _ => exact .within failure _

theorem carries_fail {purpose : Purpose} {callers : List Caller} {inner failure : Failure}
    {machine after : Machine} (fails : fail purpose callers inner machine = .error failure after) :
    failure.Carries inner := by
  induction callers generalizing purpose inner machine with
  | nil =>
      cases fails
      exact carries_around purpose inner
  | cons caller callers induction =>
      have outside : ((purpose.around inner).within caller.site).Carries inner :=
        (Failure.Carries.within _ caller.site).trans (carries_around purpose inner)
      exact (induction fails).trans outside

theorem Collapses.carries {active : Activation} {callers : List Caller} {machine after : Machine}
    {raised failure : Failure} (collapses : Collapses active callers machine raised
      (.error failure after)) : failure.Carries raised := by
  generalize outcome : (.error failure after : Outcome Unit) = ended at collapses
  cases collapses with
  | call found calls fails => exact (carries_fail outcome.symm).trans (.within _ _)
  | resolution ended purpose waiting closed fails =>
      exact (carries_fail outcome.symm).trans (.within _ _)
  | _ => exact carries_fail outcome.symm

namespace Chained

variable {program : Program} {active : Activation} {callers : List Caller} {machine after : Machine}
  {failure : Failure}

theorem later (chained : Chained program active callers machine)
    (retains : Retains (fun _ => True) machine after) : Chained program active callers after :=
  { chained with sourced := chained.sourced.later retains }

theorem caller {caller : Caller} (chained : Chained program active (caller :: callers) machine) :
    Chained program caller.toActivation callers machine where
  sourced :=
    { keeps := chained.sourced.keeps
      active := chained.sourced.callers caller List.mem_cons_self
      callers := fun other member => chained.sourced.callers other (List.mem_cons_of_mem _ member) }
  serving := chained.serving.2
  sited := (List.forall_mem_cons.mp chained.sited).2
  fromProgram := chained.fromProgram

theorem reenter {id : UInt32} {more : Nat} (chained : Chained program active callers machine)
    (purpose : active.purpose = .function id (more + 1)) :
    Chained program ⟨.function id more, active.program, 0⟩ callers machine where
  sourced :=
    { keeps := chained.sourced.keeps
      active := by
        have sourced := chained.sourced.active
        rw [purpose] at sourced
        cases sourced with
        | function _ defined => exact .function more defined
      callers := chained.sourced.callers }
  serving := by
    cases callers with
    | nil => trivial
    | cons caller others =>
        have serves := chained.serving.1
        rw [purpose] at serves
        exact ⟨⟨serves.1, Nat.le_of_succ_le serves.2⟩, chained.serving.2⟩
  sited := chained.sited
  fromProgram := by
    have fromProgram := chained.fromProgram
    rw [purposes, purpose] at fromProgram
    cases callers with
    | nil => cases fromProgram
    | cons caller others => exact fromProgram

/-- The trail grows at its outer end, by one program and the call that it serves at a time. -/
theorem traces_fail {inner : Failure} {middle : Machine} {last : Machine}
    (chained : Chained program active callers after)
    (traces : Traces after (!active.purpose.isFunction) active.program inner.trail inner.cause)
    (fails : fail active.purpose callers inner middle = .error failure last) :
    Traces after true program failure.trail failure.cause := by
  induction callers generalizing active inner middle with
  | nil =>
      have purpose : active.purpose = .program := Option.some.inj chained.fromProgram
      have sourced := chained.sourced.active
      rw [purpose] at sourced fails traces
      cases fails
      cases sourced with
      | program given =>
          cases given
          exact traces
  | cons caller callers induction =>
      rcases chained.sited caller List.mem_cons_self with ⟨index, instruction, found, calls, site⟩
      -- The caller fails at its call. What is around the callee's failure says what was called.
      refine induction chained.caller ?_ fails
      have serves := chained.serving.1
      have sourced := chained.sourced.active
      rw [Failure.trail_within, Failure.cause_within, site]
      cases purpose : active.purpose with
      | program =>
          rw [purpose] at serves
          exact serves.elim
      | controlValueProgram =>
          rw [purpose] at serves
          exact serves.elim
      | fontProgram =>
          rw [purpose] at sourced traces
          cases sourced with
          | fontProgram offered decoded => exact .fontProgram found calls offered decoded traces
      | function id more =>
          rw [purpose] at sourced traces
          cases sourced with
          | function _ defined => exact .function found calls defined traces

/-! ### The last step -/

theorem traces_collapses {raised : Failure} (chained : Chained program active callers after)
    (font : after.font = machine.font)
    (collapses : Collapses active callers machine raised (.error failure after)) :
    Traces after true program failure.trail failure.cause := by
  generalize outcome : (.error failure after : Outcome Unit) = ended at collapses
  cases collapses with
  | @instruction instruction raised left found fetched =>
      refine chained.traces_fail ?_ outcome.symm
      rcases trail_of_fetch fetched with ⟨bare, between⟩ | passed
      · rw [bare]
        exact .between (between _)
      · rw [passed]
        exact .instruction found raised.cause
  | @call instruction invocation raised middle left found fetched invoked =>
      refine chained.traces_fail ?_ outcome.symm
      rw [Failure.trail_within, Failure.cause_within]
      rcases trail_of_invoke invoked with bare | ⟨bytes, malformation, offered, malformed, rfl⟩
      · rw [bare]
        exact .instruction found raised.cause
      · have calls := returns_fetch_calls _ _ _ _ _ _ fetched
        have kept : Retains (fun _ => True) machine middle := by
          have begun : Retains (fun _ => True) machine machine := .refl trivial
          have retains := Retains.fetch Memory.maintained_true active.index instruction
            (active.program.drop (active.index + 1)) machine begun
          rwa [fetched] at retains
        rw [kept.font, ← font] at offered
        exact .fontProgramDecoding found calls offered malformed
  | entry atEnd purpose ticked =>
      rcases eq_of_tick ticked with ⟨limit, rfl⟩
      exact (chained.reenter purpose).traces_fail (.between (.budget limit)) outcome.symm
  | @openEnd capture atEnd whole opened =>
      refine chained.traces_fail ?_ outcome.symm
      rw [whole]
      exact .between (.unterminated capture.id rfl)
  | @resolution caller others raised left atEnd purpose waiting closed entered =>
      subst waiting
      rcases chained.sited caller List.mem_cons_self with ⟨index, instruction, found, calls, site⟩
      refine chained.caller.traces_fail ?_ outcome.symm
      rw [Failure.trail_within, trail_of_enterDefined entered, site]
      exact .instruction found raised.cause

theorem explained_advance (chained : Chained program active callers machine)
    (ended : advance active callers machine = .ended (.error failure after)) :
    Explained program active callers machine failure after := by
  have retains : Retains (fun _ => True) machine after := by
    have advanced : Retains (fun _ => True) machine (advance active callers machine).machine :=
      .advance Memory.maintained_true (.refl trivial)
    rwa [ended] at advanced
  rcases collapses_of_advance ended with ⟨raised, collapses⟩
  exact
    { traces := (chained.later retains).traces_collapses retains.font collapses
      raised := ⟨raised, ⟨_, collapses⟩, collapses.carries⟩ }

end Chained

/-! ## Whole runs -/

def beginProgram (program : Program) (machine : Machine) : Progress :=
  .running ⟨.program, program, 0⟩ [] { machine with steps := 0 }

theorem AtRest.chained {machine last : Machine} (rest : machine.AtRest) {program : Program}
    {active : Activation} {callers : List Caller}
    (reaches : Reaches (beginProgram program machine) (.running active callers last)) :
    Chained program active callers last where
  sourced :=
    have begun := Request.allSourced_begin (.executeProgram program) rest.keeps
    begun.of_reaches reaches
  serving :=
    have begun := rest.nested_begin (.executeProgram program)
    (begun.of_reaches reaches).serving
  sited :=
    have first : (beginProgram program machine).Callers Caller.Sited := List.forall_mem_nil _
    sited_of_reaches first reaches
  fromProgram :=
    have first : (beginProgram program machine).FromProgram := rfl
    first.of_reaches reaches

/-- The trail of a failure leads to the place where it was raised, through the calls of all programs
on the way, and the failure that was raised there is at its end. -/
theorem AtRest.executeProgram_explained {machine after : Machine} (rest : machine.AtRest)
    {program : Program} {failure : Failure}
    (fails : executeProgram program machine = .error failure after) :
    Traces after true program failure.trail failure.cause ∧
      ∃ active callers last raised,
        Reaches (beginProgram program machine) (.running active callers last) ∧
        Follows (.running active callers last) (.ended (.error failure after)) ∧
        Breaks active callers last raised ∧ failure.Carries raised := by
  have reaches : Reaches (beginProgram program machine) (.ended (.error failure after)) := by
    have performed := rest.reaches_perform (.executeProgram program)
    rwa [Request.perform, fails] at performed
  rcases reaches.exists_last with ⟨active, callers, last, before, ended⟩
  have explained := (rest.chained before).explained_advance ended
  rcases explained.raised with ⟨raised, breaks, carries⟩
  refine ⟨explained.traces, active, callers, last, raised, before, ?_, breaks, carries⟩
  rw [← ended]
  exact .advance active callers last

/-- The font program defines the function, whose body calls one that nobody defines. -/
theorem executeProgram_explained_call :
    let machine : Machine :=
      withFont {} { fontProgram := some [0xB0, 5, 0x2C, 0xB0, 6, 0x2B, 0x2D] }
    let program : Program := [.push (.ofBytes [5]), .control .call]
    let trail : List Context := [.instruction "CALL" 1, .function 5, .instruction "CALL" 1]
    ∃ after, executeProgram program machine = .error ⟨trail, .unresolvedFunction 6⟩ after ∧
      Traces after true program trail (.unresolvedFunction 6) := by
  intro machine program trail
  have rest : machine.AtRest := atRest_withFont _ _
  have fails : Outcome.failure? (executeProgram program machine) =
      some ⟨trail, .unresolvedFunction 6⟩ := by decide +kernel
  have ran := Outcome.eq_error_of_failure? fails
  exact ⟨_, ran, (rest.executeProgram_explained ran).1⟩

end Machine

end Hinting
