import Hinting.Proofs.Session.Calls
import Hinting.Proofs.Stepping.Depth

/-!
The nesting of programs in sessions.

The call depth counts the active function bodies and keeps to its limit. The font program adds
nothing to it, and is not run within itself.
-/

namespace Hinting.Machine

variable {limits : Limits} {machine after : Machine} {request : Request} {failure : Failure}

theorem Resting.nested (resting : Resting limits machine) {active : Activation}
    {callers : List Caller} {last : Machine}
    (reaches : Reaches (request.begin machine) (.running active callers last)) :
    Nested limits active callers last := by
  have begun := resting.rest.nested_begin request
  rw [resting.limits] at begun
  exact begun.of_reaches reaches

theorem callers_begin (holds : Caller → Prop) (request : Request) (machine : Machine) :
    (request.begin machine).Callers holds := by
  rw [Request.begin]
  cases request.enter machine with
  | error failure after => trivial
  | ok entry after =>
      cases entry with
      | none => trivial
      | some active => exact List.forall_mem_nil _

theorem malformed_of_enter (fails : request.enter machine = .error failure after) :
    (failure.trail = [] ∨ failure.trail = [.fontProgramDecoding] ∨
        failure.trail = [.controlValueProgramDecoding]) ∧
      ∃ malformation, failure.cause = .malformedProgram malformation := by
  have entry := request.entry machine
  rw [fails] at entry
  cases entry with
  | malformedBytes => exact ⟨.inl rfl, _, rfl⟩
  | malformedFontProgram => exact ⟨.inr (.inl rfl), _, rfl⟩
  | malformedControlValueProgram => exact ⟨.inr (.inr rfl), _, rfl⟩

theorem AtRest.collapses_of_perform (rest : machine.AtRest)
    (fails : request.perform machine = .error failure after) :
    request.enter machine = .error failure after ∨
      ∃ active callers last raised,
        Reaches (request.begin machine) (.running active callers last) ∧
          Collapses active callers last raised (.error failure after) := by
  have reaches := rest.reaches_perform request
  rw [fails] at reaches
  rw [Request.begin] at reaches ⊢
  cases entered : request.enter machine with
  | error other left =>
      rw [entered] at reaches
      cases reaches.eq_of_ended
      exact .inl rfl
  | ok entry left =>
      rw [entered] at reaches
      cases entry with
      | none => cases reaches.eq_of_ended
      | some active =>
          rcases reaches.exists_last with ⟨level, others, last, before, ended⟩
          rcases collapses_of_advance ended with ⟨raised, collapses⟩
          exact .inr ⟨level, others, last, raised, before, collapses⟩

theorem Resting.marks_le (resting : Resting limits machine) {number : List Context → Nat}
    {counted : List Purpose → Nat} (marks : Marks number counted) {bound : Nat}
    (bounded : ∀ active callers last,
      Reaches (request.begin machine) (.running active callers last) →
        counted (purposes active callers) ≤ bound)
    (fails : request.perform machine = .error failure after) : number failure.trail ≤ bound := by
  rcases resting.rest.collapses_of_perform fails with
    refused | ⟨active, callers, last, raised, reaches, ends⟩
  · have bare : number failure.trail = 0 := by
      rcases (malformed_of_enter refused).1 with empty | decoding | decoding
      · rw [empty, marks.bare.1]
      · rw [decoding, (marks.decoding []).1, marks.bare.1]
      · rw [decoding, (marks.decoding []).2, marks.bare.1]
    rw [bare]
    exact Nat.zero_le bound
  · have waits := waits_of_reaches (callers_begin Caller.Waits request machine) reaches
    exact Nat.le_trans (marks.collapses waits ends) (bounded active callers last reaches)

theorem Resting.failsWith_callDepthExceeded (resting : Resting limits machine) (limit : Nat) :
    FailsWith (.callDepthExceeded limit) (request.perform machine) ↔
      limit = limits.maxCallDepth ∧ ∃ active callers last,
        Reaches (request.begin machine) (.running active callers last) ∧
          CallsDefined active callers last ∧
          functionBodies (purposes active callers) = limits.maxCallDepth := by
  constructor
  · rintro ⟨failure, after, fails, exceeded⟩
    rcases resting.rest.collapses_of_perform fails with
      refused | ⟨active, callers, last, raised, reaches, ends⟩
    · rcases (malformed_of_enter refused).2 with ⟨malformation, malformed⟩
      cases malformed.symm.trans exceeded
    · have waits := waits_of_reaches (callers_begin Caller.Waits request machine) reaches
      rcases (resting.nested reaches).callsDefined waits ends exceeded with ⟨same, calls, full⟩
      exact ⟨same, active, callers, last, reaches, calls, full⟩
  · rintro ⟨rfl, active, callers, last, reaches, calls, full⟩
    rcases (resting.nested reaches).exceeds calls full with ⟨outcome, ends, fails⟩
    have follows := Follows.advance active callers last
    rw [ends] at follows
    have reached : Reaches _ (.ended outcome) := reaches.tail follows
    rw [← resting.rest.eq_perform reached]
    exact fails

/-- All along a run the call depth is the number of active function bodies, and it keeps to its
limit. The font program counts for nothing there, and is active once at most. This is so as well
when a failure has come out of some of the programs, which it leaves one by one, and nothing is
active when the run has ended. A failure has therefore come out of no more functions than the limit
admits, and of the font program once at most. The limit is exceeded by the calls, and only by them,
that have a function to enter while as many bodies are active as the limit admits. -/
theorem session_nested (limits : Limits) (font : Option FontTables) (history : List Operation)
    (request : Request) :
    (∀ active callers machine failed left,
      Reaches (request.begin (session limits font history)) (.running active callers machine) →
        purposes active callers = failed ++ left →
          (abandonAll failed machine).callDepth = functionBodies left ∧
            functionBodies left ≤ limits.maxCallDepth ∧ fontPrograms left ≤ 1) ∧
      (∀ active passed caller callers failure machine, ∃ outer,
        fail active.purpose (passed ++ caller :: callers) failure machine =
          fail caller.purpose callers outer (abandonAll (purposes active passed) machine)) ∧
      (∀ active callers failure machine,
        Outcome.machine (fail active.purpose callers failure machine) =
          abandonAll (purposes active callers) machine) ∧
      (∀ outcome, Reaches (request.begin (session limits font history)) (.ended outcome) →
        (Outcome.machine outcome).callDepth = 0) ∧
      (∀ failure after, request.perform (session limits font history) = .error failure after →
        functionContexts failure.trail ≤ limits.maxCallDepth ∧
          fontProgramContexts failure.trail ≤ 1) ∧
      ∀ limit, FailsWith (.callDepthExceeded limit)
          (request.perform (session limits font history)) ↔
        limit = limits.maxCallDepth ∧ ∃ active callers machine,
          Reaches (request.begin (session limits font history))
              (.running active callers machine) ∧
            CallsDefined active callers machine ∧
            functionBodies (purposes active callers) = limits.maxCallDepth := by
  have resting := resting_session limits font history
  have bodies : ∀ active callers machine,
      Reaches (request.begin (session limits font history)) (.running active callers machine) →
        functionBodies (purposes active callers) ≤ limits.maxCallDepth := by
    intro active callers machine reaches
    have nested := resting.nested reaches
    exact nested.callDepth ▸ nested.bounded
  have once : ∀ active callers machine,
      Reaches (request.begin (session limits font history)) (.running active callers machine) →
        fontPrograms (purposes active callers) ≤ 1 := by
    intro active callers machine reaches
    have nested := resting.nested reaches
    exact nested.inFontProgram ▸ Bool.toNat_le machine.inFontProgram
  refine ⟨?_, fun active => fail_append active.purpose,
    fun active => machine_fail_eq_abandonAll active.purpose, ?_, ?_,
    resting.failsWith_callDepthExceeded⟩
  · intro active callers machine failed left reaches split
    have nested := resting.nested reaches
    have depth := nested.callDepth
    rw [split] at depth
    have part : List.Sublist left (purposes active callers) := by
      rw [split]
      exact List.sublist_append_right failed left
    refine ⟨callDepth_abandonAll depth, ?_, ?_⟩
    · exact Nat.le_trans part.countP_le (bodies active callers machine reaches)
    · exact Nat.le_trans (part.count_le _) (once active callers machine reaches)
  · intro outcome reaches
    have after := resting.rest.afterCall request.call
    rw [afterCall_request, ← resting.rest.eq_perform reaches] at after
    exact after.callDepth
  · intro failure after fails
    exact ⟨resting.marks_le marks_functions bodies fails,
      resting.marks_le marks_fontPrograms once fails⟩

/-- The font program defines a function that calls itself. -/
theorem session_nested_recursion :
    let limits : Limits := { maxCallDepth := 2 }
    let font : FontTables := { fontProgram := some [0xB0, 5, 0x2C, 0xB0, 5, 0x2B, 0x2D] }
    let program : Program := [.push (.ofBytes [5]), .control .call]
    let request := Request.executeProgram program
    let machine := session limits (some font) []
    (∃ failure after, request.perform machine = .error failure after ∧ after.callDepth = 0 ∧
        failure.trail = [.instruction "CALL" 1, .function 5, .instruction "CALL" 1, .function 5,
          .instruction "CALL" 1] ∧
        functionContexts failure.trail ≤ 2 ∧ fontProgramContexts failure.trail ≤ 1) ∧
      FailsWith (.callDepthExceeded 2) (request.perform machine) ∧
      ∃ active callers last, Reaches (request.begin machine) (.running active callers last) ∧
        CallsDefined active callers last ∧ last.callDepth = 2 ∧
        functionBodies (purposes active callers) = 2 ∧
        fontPrograms (purposes active callers) ≤ 1 := by
  intro limits font program request machine
  rcases session_nested limits (some font) [] request with
    ⟨depths, _, _, ended, trails, exceeds⟩
  have fails : Outcome.failure? (request.perform machine) =
      some ⟨[.instruction "CALL" 1, .function 5, .instruction "CALL" 1, .function 5,
        .instruction "CALL" 1], .callDepthExceeded 2⟩ := by decide +kernel
  have ran := Outcome.eq_error_of_failure? fails
  have exceeded : FailsWith (.callDepthExceeded 2) (request.perform machine) := ⟨_, _, ran, rfl⟩
  rcases ((exceeds 2).mp exceeded).2 with ⟨active, callers, last, reaches, calls, full⟩
  have depth := depths active callers last [] _ reaches rfl
  have outcome := (resting_session limits (some font) []).rest.reaches_perform request
  exact ⟨⟨_, _, ran, ended _ outcome, rfl, trails _ _ ran⟩, exceeded, active, callers, last,
    reaches, calls, depth.1.trans full, full, depth.2.2⟩

end Hinting.Machine
