import Hinting.Proofs.Session.Calls
import Hinting.Proofs.Stepping.Malformation

/-!
Sessions with bytecode that does not decode.

There are four ways to run bytecode: to execute it, to ask for the control value program, to load
the font program, and to call a function that nobody has defined. On none of them anything is run
that does not decode as a whole.
-/

namespace Hinting.Machine

variable {limits : Limits} {font : Option FontTables} {asked : Prop} {machine : Machine}

/-! ## What machines tell -/

namespace Marked

theorem mono {wider : Prop} (marked : Marked font asked machine) (implies : asked → wider) :
    Marked font wider machine :=
  { marked with primed := fun primed => implies (marked.primed primed) }

theorem onMemory (marked : Marked font asked machine) (action : MemoryAction α) :
    Marked font asked (Outcome.machine (onMemory action machine)) :=
  marked.of_surroundings ((Oblivious.onMemory action).surroundings_eq machine)

theorem of_reaches (marked : Marked font asked machine) {request : Request}
    (primes : request = .prime → asked) {state : Progress}
    (reaches : Reaches (request.begin machine) state) : Marked font asked state.machine := by
  refine lasting.of_reaches ?_ reaches
  rw [machine_begin]
  exact marked.enter request primes

theorem afterOperation (marked : Marked font asked machine) (rest : machine.AtRest)
    (operation : Operation) :
    Marked font (asked ∨ operation = .call .prime) (machine.afterOperation operation) := by
  have wider : Marked font (asked ∨ operation = .call .prime) machine := marked.mono .inl
  cases operation with
  | editStack edit => exact { wider with }
  | editControlValues edit => exact { wider with }
  | call call =>
      rcases call.request_or_memoryAction with ⟨request, rfl⟩ | ⟨action, _, performs⟩
      · rw [Machine.afterOperation, afterCall_request]
        refine wider.of_reaches (fun same => .inr ?_) (rest.reaches_perform request)
        rw [same]
        rfl
      · rw [Machine.afterOperation, afterCall_eq, performs]
        exact wider.onMemory action

theorem foldl_afterOperation (marked : Marked font asked machine)
    (resting : Resting limits machine) (history : List Operation) :
    Marked font (asked ∨ .call .prime ∈ history)
      (history.foldl Machine.afterOperation machine) := by
  induction history generalizing machine asked with
  | nil => exact marked.mono .inl
  | cons operation history induction =>
      have first := marked.afterOperation resting.rest operation
      refine (induction first (resting.afterOperation operation)).mono ?_
      rintro ((before | same) | later)
      · exact .inl before
      · exact .inr (same ▸ List.mem_cons_self)
      · exact .inr (List.mem_cons_of_mem _ later)

end Marked

theorem marked_opened (limits : Limits) (font : Option FontTables) :
    Marked font False (opened limits font) := by
  cases font with
  | none => exact ⟨rfl, nofun, .unloaded⟩
  | some font => exact ⟨rfl, nofun, .unloaded⟩

theorem marked_session (limits : Limits) (font : Option FontTables) (history : List Operation) :
    Marked font (.call .prime ∈ history) (session limits font history) := by
  have resting := resting_opened limits font
  have marked := (marked_opened limits font).foldl_afterOperation resting history
  exact marked.mono fun
    | .inr asked => asked

/-! ## Requests that are not entered -/

theorem Request.perform_of_enter {request : Request} {failure : Failure} {after : Machine}
    (refused : request.enter machine = .error failure after) :
    request.perform machine = .error failure after := by
  rw [perform_eq, bind_apply_of_error refused]

theorem executeBytes_malformed {bytes : List UInt8} {malformation : Malformation}
    (malformed : decode bytes = .error malformation) (machine : Machine) :
    executeBytes bytes machine = .error { cause := .malformedProgram malformation } machine := by
  rw [executeBytes, malformed]
  rfl

theorem prime_malformed {bytes : List UInt8} {malformation : Malformation}
    (unprimed : machine.primed = false)
    (offered : machine.font.bind FontTables.controlValueProgram = some bytes)
    (malformed : decode bytes = .error malformation) :
    prime machine =
      .error ⟨[.controlValueProgramDecoding], .malformedProgram malformation⟩
        { machine with primed := true } := by
  refine @Request.perform_of_enter machine .prime _ _ ?_
  rw [Request.enter_prime, unprimed, if_neg Bool.false_ne_true]
  cases present : machine.font with
  | none =>
      rw [present] at offered
      cases offered
  | some font =>
      rw [present] at offered
      have provided : font.controlValueProgram = some bytes := offered
      dsimp only
      rw [provided]
      dsimp only
      rw [malformed]

theorem loadFontProgram_malformed {malformation : Malformation}
    (unloaded : machine.fontProgramLoaded = false)
    (malformed : machine.fontProgram? = .error malformation) :
    loadFontProgram machine =
      .error ⟨[.fontProgramDecoding], .malformedProgram malformation⟩
        { machine with steps := 0 } := by
  refine @Request.perform_of_enter machine .loadFontProgram _ _ ?_
  rw [Request.enter_loadFontProgram, unloaded, if_neg Bool.false_ne_true, malformed]

/-! ## Calls in sessions -/

theorem Resting.perform_malformed (resting : Resting limits machine)
    (marked : Marked font asked machine) {bytes : List UInt8} {malformation : Malformation}
    (offered : font.bind FontTables.fontProgram = some bytes)
    (malformed : decode bytes = .error malformation) {request : Request} {active : Activation}
    {callers : List Caller} {last : Machine} {instruction : Instruction}
    {invocation : Invocation} {below : List Value}
    (reaches : Reaches (request.begin machine) (.running active callers last))
    (calling : Calling active last instruction invocation below)
    (unknown : last.functions.get? invocation.id = none) :
    ∃ failure after, request.perform machine = .error failure after ∧
      failure.Carries
        ⟨[.instruction instruction.mnemonic active.index, .fontProgramDecoding],
          .malformedProgram malformation⟩ ∧
      after.memory = (last.withValues below).memory ∧ after.functions = last.functions := by
  have markedLast : Marked font True last :=
    (marked.mono fun _ => trivial).of_reaches (fun _ => trivial) reaches
  have here : last.font.bind FontTables.fontProgram = some bytes := by
    rwa [markedLast.sameFont]
  have nested : Nested machine.limits active callers last :=
    (resting.rest.nested_begin request).of_reaches reaches
  have sourced : AllSourced request active callers last :=
    (request.allSourced_begin resting.rest.keeps).of_reaches reaches
  have outside := outside_of_malformed nested sourced here malformed
  have refused := (markedLast.fontProgram_of_malformed offered malformed).2
  rcases calling.advance_malformed unknown outside refused with
    ⟨failure, after, ended, carries, kept⟩
  refine ⟨failure, after, ?_, carries, kept⟩
  have follows := Follows.advance active callers last
  rw [ended] at follows
  have reached : Reaches (request.begin machine) (.ended (.error failure after)) :=
    reaches.tail follows
  exact (resting.rest.eq_perform reached).symm

/-- Bytecode that does not decode is reported and not run. Executing it leaves the machine as it is.
The control value program is asked for once, and that this has been done is all that changes. The
font program counts as not loaded however often it is asked for, and nothing but the step count
begins anew. A call that needs it, at any depth, takes its own operands and nothing else. -/
theorem session_malformed (limits : Limits) (font : Option FontTables) (history : List Operation)
    (bytes : List UInt8) (malformation : Malformation)
    (malformed : decode bytes = .error malformation) :
    let machine := session limits font history
    executeBytes bytes machine = .error { cause := .malformedProgram malformation } machine ∧
      (font.bind FontTables.controlValueProgram = some bytes → .call .prime ∉ history →
        machine.primed = false ∧
          prime machine =
            .error ⟨[.controlValueProgramDecoding], .malformedProgram malformation⟩
              { machine with primed := true }) ∧
      (font.bind FontTables.fontProgram = some bytes →
        machine.fontProgramLoaded = false ∧
          loadFontProgram machine =
            .error ⟨[.fontProgramDecoding], .malformedProgram malformation⟩
              { machine with steps := 0 } ∧
          ∀ (request : Request) state, Reaches (request.begin machine) state →
            state.machine.fontProgramLoaded = false ∧
              ∀ active callers last instruction invocation below,
                state = .running active callers last →
                Calling active last instruction invocation below →
                last.functions.get? invocation.id = none →
                ∃ failure after, request.perform machine = .error failure after ∧
                  failure.Carries
                    ⟨[.instruction instruction.mnemonic active.index, .fontProgramDecoding],
                      .malformedProgram malformation⟩ ∧
                  after.memory = (last.withValues below).memory ∧
                  after.functions = last.functions) := by
  intro machine
  have resting := resting_session limits font history
  have marked := marked_session limits font history
  refine ⟨executeBytes_malformed malformed machine, ?_, ?_⟩
  · intro offered unasked
    have unprimed : machine.primed = false :=
      Bool.eq_false_iff.mpr fun primed => unasked (marked.primed primed)
    rw [← marked.sameFont] at offered
    exact ⟨unprimed, prime_malformed unprimed offered malformed⟩
  · intro offered
    rcases marked.fontProgram_of_malformed offered malformed with ⟨unloaded, refused⟩
    refine ⟨unloaded, loadFontProgram_malformed unloaded refused, ?_⟩
    intro request state reaches
    have whatever : Marked font True machine := marked.mono fun _ => trivial
    have markedState := whatever.of_reaches (fun _ => trivial) reaches
    refine ⟨(markedState.fontProgram_of_malformed offered malformed).1, ?_⟩
    rintro active callers last instruction invocation below rfl calling unknown
    exact resting.perform_malformed marked offered malformed reaches calling unknown

/-- Both programs of the font end in the middle of a push. The call of a function that is not
defined is made in the body of another one, which the program has defined itself. -/
theorem session_malformed_call :
    let bytes : List UInt8 := [0xB0]
    let malformation : Malformation := ⟨0, .truncatedPush 1 1 0⟩
    let font : FontTables := { fontProgram := some bytes, controlValueProgram := some bytes }
    let program : Program := [.push (.ofBytes [6, 5, 5]), .control .beginFunction, .control .call,
      .control .endFunction, .control .call]
    let machine := session {} (some font) [.call .loadFontProgram]
    let request := Request.executeProgram program
    executeBytes bytes machine = .error { cause := .malformedProgram malformation } machine ∧
      prime machine =
        .error ⟨[.controlValueProgramDecoding], .malformedProgram malformation⟩
          { machine with primed := true } ∧
      loadFontProgram machine =
        .error ⟨[.fontProgramDecoding], .malformedProgram malformation⟩
          { machine with steps := 0 } ∧
      ∃ caller last failure after,
        Reaches (request.begin machine)
            (.running ⟨.function 5 0, [.control .call], 0⟩ [caller] last) ∧
          request.perform machine = .error failure after ∧
          failure.Carries
            ⟨[.instruction "CALL" 0, .fontProgramDecoding], .malformedProgram malformation⟩ ∧
          after.memory = (last.withValues []).memory ∧ after.functions = last.functions := by
  intro bytes malformation font program machine request
  have malformed : decode bytes = .error malformation := rfl
  have unasked : .call .prime ∉ [Operation.call .loadFontProgram] := by simp
  rcases session_malformed {} (some font) [.call .loadFontProgram] bytes malformation malformed with
    ⟨executed, primed, loaded⟩
  rcases loaded rfl with ⟨_, reported, calls⟩
  let state := Progress.next^[6] (request.begin machine)
  let caller : Caller := ⟨⟨.program, program, 5⟩, .instruction "CALL" 4, ⟨5, 1⟩⟩
  have here : state = .running ⟨.function 5 0, [.control .call], 0⟩ [caller] state.machine :=
    Progress.eq_running_of_levels? (by decide +kernel)
  have reaches : Reaches (request.begin machine) state := Progress.reaches_next 6 _
  have values : state.machine.memory.stack.values = [.int 6] := by decide +kernel
  have unlimited : state.machine.limits.maxSteps = none := by decide +kernel
  have calling : Calling ⟨.function 5 0, [.control .call], 0⟩ state.machine (.control .call)
      ⟨6, 1⟩ [] :=
    { found := rfl
      closed := by decide +kernel
      affordable := by
        rw [AffordsStep, unlimited]
        exact nofun
      operands := by
        rw [values]
        exact .call rfl }
  have unknown : state.machine.functions.get? 6 = none := by decide +kernel
  rcases (calls request state reaches).2 _ _ _ _ _ _ here calling unknown with
    ⟨failure, after, ran, carries, kept⟩
  exact ⟨executed, (primed rfl unasked).2, reported, caller, state.machine, failure, after,
    here ▸ reaches, ran, carries, kept⟩

end Hinting.Machine
