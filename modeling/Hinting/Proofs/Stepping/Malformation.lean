import Hinting.Proofs.Stepping.Calling

/-!
Bytecode that does not decode.

A font program is started once it has been decoded, and not before. If it cannot be decoded then it
is never active, and every call that needs it fails where it stands.
-/

namespace Hinting.Machine

/-- What a machine tells of its past: who has been asked for the control value program, and what the
font program was decoded to. -/
structure Marked (font : Option FontTables) (asked : Prop) (machine : Machine) : Prop where
  sameFont : machine.font = font
  primed : machine.primed = true → asked
  keeps : machine.KeepsFontProgram

section

variable {font : Option FontTables} {asked : Prop} {machine after : Machine}

namespace Marked

theorem of_surroundings (marked : Marked font asked machine)
    (same : after.surroundings = machine.surroundings) : Marked font asked after where
  sameFont := (congrArg Surroundings.font same).trans marked.sameFont
  primed := by
    have flag : after.primed = machine.primed := congrArg Surroundings.primed same
    rw [flag]
    exact marked.primed
  keeps :=
    marked.keeps.of_eq (congrArg Surroundings.font same)
      (congrArg Surroundings.fontProgramLoaded same)
      (congrArg Surroundings.decodedFontProgram same)

theorem tick : Maintains (Marked font asked) tick := by
  intro machine marked
  rw [tick_apply]
  split
  · split <;> exact { marked with }
  · exact { marked with }

theorem fetch (index : Nat) (instruction : Instruction) (rest : Program) :
    Maintains (Marked font asked) (fetch index instruction rest) := by
  refine tick.bind fun _ machine marked => ?_
  have same := (Oblivious.attempt index instruction rest).surroundings_eq machine
  rw [stateAfter_eq_machine]
  exact marked.of_surroundings same

theorem ignoresNesting : IgnoresNesting (Marked font asked) where
  nesting _ _ _ _ marked := { marked with }
  load found marked := { marked with keeps := marked.keeps.load found }

theorem lasting : Lasting (Marked font asked) where
  tick := tick
  fetch := fetch
  enterDefined := ignoresNesting.enterDefined
  invoke := ignoresNesting.invoke
  leave _ _ _ _ _ marked := { marked with }

theorem enter (marked : Marked font asked machine) (request : Request)
    (primes : request = .prime → asked) :
    Marked font asked (Outcome.machine (request.enter machine)) := by
  have entry := request.entry machine
  generalize request.enter machine = outcome at entry ⊢
  cases entry with
  | nothingToPrime | controlValueProgram | malformedControlValueProgram =>
      exact { marked with primed := fun _ => primes rfl }
  | fontProgram unloaded found => exact { marked with keeps := marked.keeps.load found }
  | _ => exact { marked with }

theorem fontProgram_of_malformed (marked : Marked font asked machine) {bytes : List UInt8}
    {malformation : Malformation} (offered : font.bind FontTables.fontProgram = some bytes)
    (malformed : decode bytes = .error malformation) :
    machine.fontProgramLoaded = false ∧ machine.fontProgram? = .error malformation := by
  rw [← marked.sameFont] at offered
  exact ⟨marked.keeps.unloaded_of_malformed offered malformed,
    marked.keeps.fontProgram?_eq_error offered malformed⟩

end Marked

end

/-! ## Calls -/

section

variable {active : Activation} {callers : List Caller} {machine : Machine} {bytes : List UInt8}
  {malformation : Malformation}

theorem outside_of_malformed {limits : Limits} {request : Request}
    (nested : Nested limits active callers machine)
    (sourced : AllSourced request active callers machine)
    (offered : machine.font.bind FontTables.fontProgram = some bytes)
    (malformed : decode bytes = .error malformation) : machine.inFontProgram = false := by
  have notSourced : ∀ program, ¬ Sourced request machine .fontProgram program := by
    intro program from_font
    cases from_font with
    | fontProgram given decoded =>
        cases offered.symm.trans given
        cases malformed.symm.trans decoded
  have absent : .fontProgram ∉ purposes active callers := by
    intro member
    rcases List.mem_cons.mp member with here | above
    · have from_font := sourced.active
      rw [← here] at from_font
      exact notSourced _ from_font
    · rcases List.mem_map.mp above with ⟨caller, waiting, purpose⟩
      have from_font := sourced.callers caller waiting
      rw [purpose] at from_font
      exact notSourced _ from_font
  have flag := nested.inFontProgram
  rw [fontPrograms, List.count_eq_zero.mpr absent] at flag
  exact Bool.toNat_eq_zero.mp flag

theorem invoke_malformed {invocation : Invocation}
    (unknown : machine.functions.get? invocation.id = none)
    (outside : machine.inFontProgram = false)
    (malformed : machine.fontProgram? = .error malformation) :
    invoke invocation machine =
      .error ⟨[.fontProgramDecoding], .malformedProgram malformation⟩
        { machine with journal := .resolving invocation.id :: machine.journal } := by
  have unresolved :
      ¬((machine.functions.get? invocation.id).isSome || machine.inFontProgram) = true := by
    simp [unknown, outside]
  rw [invoke_apply, if_neg unresolved, malformed]

/-- The call has taken its operands when it fails, and nothing else has changed by then. -/
theorem Calling.advance_malformed {instruction : Instruction} {invocation : Invocation}
    {below : List Value} (calling : Calling active machine instruction invocation below)
    (unknown : machine.functions.get? invocation.id = none)
    (outside : machine.inFontProgram = false)
    (malformed : machine.fontProgram? = .error malformation) :
    ∃ failure after, Machine.advance active callers machine = .ended (.error failure after) ∧
      failure.Carries
        ⟨[.instruction instruction.mnemonic active.index, .fontProgramDecoding],
          .malformedProgram malformation⟩ ∧
      after.memory = (machine.withValues below).memory ∧ after.functions = machine.functions := by
  let called := (machine.fetched active.index instruction).withValues below
  let resolving := { called with journal := .resolving invocation.id :: called.journal }
  let raised : Failure :=
    ⟨[.instruction instruction.mnemonic active.index, .fontProgramDecoding],
      .malformedProgram malformation⟩
  have refused : invoke invocation called =
      .error ⟨[.fontProgramDecoding], .malformedProgram malformation⟩ resolving :=
    invoke_malformed unknown outside malformed
  let kept := fun later : Machine =>
    later.memory = (machine.withValues below).memory ∧ later.functions = machine.functions
  have now : kept resolving := ⟨rfl, rfl⟩
  have left : kept (Outcome.machine (fail active.purpose callers raised resolving)) :=
    holds_fail kept (fun purpose later same => by cases purpose with | _ => exact same)
      active.purpose callers raised now
  rcases failsWith_fail active.purpose callers raised resolving with ⟨failure, after, fails, _⟩
  rw [fails] at left
  refine ⟨failure, after, ?_, carries_fail fails, left⟩
  rw [calling.advance, refused]
  exact congrArg Progress.ended fails

end

end Hinting.Machine
