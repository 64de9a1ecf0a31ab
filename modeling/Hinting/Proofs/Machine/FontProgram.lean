import Hinting.Proofs.Machine.Action

/-!
The font program, and what a machine keeps of it.

A font program is decoded for its first run. Later runs find it as it was decoded then. They could
as well decode it again: the program that is kept is the one that the bytes of the font stand for,
and it is kept exactly if the font program counts as loaded.
-/

namespace Hinting.Machine

/-! ## Runs of the font program -/

/-- The font program as a run finds it: the one that is kept, or else the one of the font. -/
def fontProgram? (machine : Machine) : Except Malformation (Option Program) :=
  match machine.decodedFontProgram with
  | some program => .ok (some program)
  | none => (machine.font.bind FontTables.fontProgram).mapM decode

def startFontProgram (program : Program) (machine : Machine) : Machine :=
  { machine with
    decodedFontProgram := some program
    fontProgramLoaded := true
    inFontProgram := true
    journal := .runningFontProgram program.length :: machine.journal }

def finishFontProgram (run : Program → MachineAction Unit) (program : Program) :
    MachineAction Unit := do
  within .fontProgram <|
    ensuring (runWhole run program) fun machine => { machine with inFontProgram := false }
  emit (.fontProgramDone (← get).functions.size)

theorem decodeTable_apply (context : Context) (bytes : List UInt8) (machine : Machine) :
    decodeTable context bytes machine =
      match decode bytes with
      | .ok program => .ok program machine
      | .error malformation => .error ⟨[context], .malformedProgram malformation⟩ machine := by
  rw [decodeTable]
  cases decode bytes with
  | ok program => rfl
  | error malformation => rfl

theorem decodeFontProgram_apply (machine : Machine) :
    decodeFontProgram machine =
      match machine.fontProgram? with
      | .ok none => .ok none machine
      | .ok (some program) =>
          .ok (some program) { machine with decodedFontProgram := some program }
      | .error malformation =>
          .error ⟨[.fontProgramDecoding], .malformedProgram malformation⟩ machine := by
  rw [decodeFontProgram, get_bind_apply, fontProgram?]
  cases kept : machine.decodedFontProgram with
  | some program =>
      have same : { machine with decodedFontProgram := some program } = machine := by rw [← kept]
      dsimp only
      rw [same]
      rfl
  | none =>
      dsimp only
      cases machine.font.bind FontTables.fontProgram with
      | none => rfl
      | some bytes =>
          rw [Option.mapM_some]
          dsimp only
          rw [bind_apply, decodeTable_apply]
          cases decode bytes with
          | ok program => rfl
          | error malformation => rfl

theorem runFontProgram_apply (run : Program → MachineAction Unit) (machine : Machine) :
    runFontProgram run machine =
      match machine.fontProgram? with
      | .ok none => .ok () machine
      | .ok (some program) => finishFontProgram run program (machine.startFontProgram program)
      | .error malformation =>
          .error ⟨[.fontProgramDecoding], .malformedProgram malformation⟩ machine := by
  rw [runFontProgram, bind_apply, decodeFontProgram_apply]
  cases machine.fontProgram? with
  | error malformation => rfl
  | ok found =>
      cases found with
      | none => rfl
      | some program => rfl

/-! ## What is kept -/

/-- Nothing is kept of a font program that has not been loaded. Of one that has been loaded it is
what the bytes of the font decode to. -/
inductive Kept (font : Option FontTables) : (loaded : Bool) → (decoded : Option Program) → Prop
  | unloaded : Kept font false none
  | loaded {bytes : List UInt8} {program : Program}
      (offered : font.bind FontTables.fontProgram = some bytes)
      (decodes : decode bytes = .ok program) : Kept font true (some program)

def KeepsFontProgram (machine : Machine) : Prop :=
  Kept machine.font machine.fontProgramLoaded machine.decodedFontProgram

theorem Kept.unique {font : Option FontTables} {loaded : Bool} {left right : Option Program}
    (keptLeft : Kept font loaded left) (keptRight : Kept font loaded right) : left = right := by
  cases keptLeft with
  | unloaded =>
      cases keptRight
      rfl
  | loaded offeredLeft decodesLeft =>
      cases keptRight with
      | loaded offeredRight decodesRight =>
          cases offeredLeft.symm.trans offeredRight
          cases decodesLeft.symm.trans decodesRight
          rfl

theorem mapM_decode_eq_ok {offered : Option (List UInt8)} {program : Program} :
    offered.mapM decode = .ok (some program) ↔
      ∃ bytes, offered = some bytes ∧ decode bytes = .ok program := by
  cases offered with
  | none => simp [pure, Except.pure]
  | some bytes =>
      cases decoded : decode bytes <;> simp [decoded, Functor.map, Except.map]

theorem mapM_decode_eq_error {offered : Option (List UInt8)} {malformation : Malformation} :
    offered.mapM decode = .error malformation ↔
      ∃ bytes, offered = some bytes ∧ decode bytes = .error malformation := by
  cases offered with
  | none => simp [pure, Except.pure]
  | some bytes =>
      cases decoded : decode bytes <;> simp [decoded, Functor.map, Except.map]

theorem exists_of_fontProgram?_eq_error {machine : Machine} {malformation : Malformation}
    (fails : machine.fontProgram? = .error malformation) :
    ∃ bytes, machine.font.bind FontTables.fontProgram = some bytes ∧
      decode bytes = .error malformation := by
  rw [fontProgram?] at fails
  split at fails
  · cases fails
  · exact mapM_decode_eq_error.mp fails

namespace KeepsFontProgram

variable {machine : Machine} {program : Program}

theorem of_eq {other : Machine} (keeps : machine.KeepsFontProgram)
    (font : other.font = machine.font)
    (loaded : other.fontProgramLoaded = machine.fontProgramLoaded)
    (decoded : other.decodedFontProgram = machine.decodedFontProgram) :
    other.KeepsFontProgram := by
  rwa [KeepsFontProgram, font, loaded, decoded]

theorem decodedFontProgram_eq {other : Machine} (keeps : machine.KeepsFontProgram)
    (otherKeeps : other.KeepsFontProgram) (font : machine.font = other.font)
    (loaded : machine.fontProgramLoaded = other.fontProgramLoaded) :
    machine.decodedFontProgram = other.decodedFontProgram := by
  rw [KeepsFontProgram, font, loaded] at keeps
  exact keeps.unique otherKeeps

/-- What is kept makes no difference to what is run. -/
theorem fontProgram?_eq_mapM (keeps : machine.KeepsFontProgram) :
    machine.fontProgram? = (machine.font.bind FontTables.fontProgram).mapM decode := by
  rw [fontProgram?]
  cases kept : machine.decodedFontProgram with
  | none => rfl
  | some program =>
      rw [KeepsFontProgram, kept] at keeps
      generalize machine.fontProgramLoaded = loaded at keeps
      cases keeps with
      | loaded offered decodes => exact (mapM_decode_eq_ok.mpr ⟨_, offered, decodes⟩).symm

theorem exists_decode (keeps : machine.KeepsFontProgram)
    (found : machine.fontProgram? = .ok (some program)) :
    ∃ bytes, machine.font.bind FontTables.fontProgram = some bytes ∧
      decode bytes = .ok program := by
  rw [keeps.fontProgram?_eq_mapM] at found
  exact mapM_decode_eq_ok.mp found

theorem load (keeps : machine.KeepsFontProgram)
    (found : machine.fontProgram? = .ok (some program)) :
    KeepsFontProgram
      { machine with decodedFontProgram := some program, fontProgramLoaded := true } := by
  rcases keeps.exists_decode found with ⟨bytes, offered, decodes⟩
  exact .loaded offered decodes

section

variable {bytes : List UInt8} {malformation : Malformation} (keeps : machine.KeepsFontProgram)
  (offered : machine.font.bind FontTables.fontProgram = some bytes)
  (malformed : decode bytes = .error malformation)

include keeps offered malformed

theorem unloaded_of_malformed : machine.fontProgramLoaded = false := by
  rw [KeepsFontProgram] at keeps
  generalize machine.fontProgramLoaded = loaded, machine.decodedFontProgram = kept at keeps ⊢
  cases keeps with
  | unloaded => rfl
  | loaded given decodes =>
      cases offered.symm.trans given
      cases malformed.symm.trans decodes

theorem fontProgram?_eq_error : machine.fontProgram? = .error malformation :=
  keeps.fontProgram?_eq_mapM.trans (mapM_decode_eq_error.mpr ⟨bytes, offered, malformed⟩)

end

/-- A machine that has forgotten what it kept decodes the font program again, and then does what it
would have done. -/
theorem runFontProgram_forget (keeps : machine.KeepsFontProgram)
    (run : Program → MachineAction Unit) :
    runFontProgram run { machine with decodedFontProgram := none } =
      runFontProgram run machine := by
  cases kept : machine.decodedFontProgram with
  | none => rw [← kept]
  | some program =>
      have again :
          fontProgram? { machine with decodedFontProgram := none } = machine.fontProgram? :=
        keeps.fontProgram?_eq_mapM.symm
      have found : machine.fontProgram? = .ok (some program) := by rw [fontProgram?, kept]
      rw [runFontProgram_apply, runFontProgram_apply, again, found]
      rfl

end KeepsFontProgram

end Hinting.Machine
