import Hinting.Proofs.Checked.Agreement
import Hinting.Proofs.Session.History

/-!
Requests of sessions, with partial operations.

Bytes are read at positions, stack values are found by subtraction, and products need more than 64
bits: wherever an operation is not defined everywhere, the request has made sure that it is defined
for what it is applied to.
-/

namespace Hinting

open Machine (Outcome Request)

namespace Checked

variable {machine : Machine}

/-! ## Requests -/

theorem resetSteps_bind_eq {checked : Checked Failure Machine Unit} {action : MachineAction Unit}
    (agrees : Agrees checked action)
    (fits : (Outcome.machine ((do Machine.resetSteps; action) machine)).steps < UInt64.size) :
    (do total Machine.resetSteps; checked : Checked Failure Machine Unit) machine =
      total (do Machine.resetSteps; action) machine :=
  (agrees { machine with steps := 0 }).same fits

theorem executeProgram_eq {program : Program}
    (fits : (Outcome.machine (Machine.executeProgram program machine)).steps < UInt64.size) :
    executeProgram program machine = total (Machine.executeProgram program) machine :=
  resetSteps_bind_eq (agrees_runWhole agrees_run program) fits

theorem executeBytes_eq {bytes : List UInt8}
    (fits : (Request.executeBytes bytes).Runs machine →
      (Outcome.machine (Machine.executeBytes bytes machine)).steps < UInt64.size) :
    executeBytes bytes machine = total (Machine.executeBytes bytes) machine := by
  rw [executeBytes, decode?_eq, defined_some, pure_bind, Machine.executeBytes]
  rw [Request.Runs, Request.enter, Machine.executeBytes] at fits
  cases decoded : decode bytes with
  | error malformation => rfl
  | ok program =>
      rw [decoded] at fits
      exact executeProgram_eq (fits ⟨_, _, rfl⟩)

theorem prime_eq
    (fits : Request.prime.Runs machine →
      (Outcome.machine (Machine.prime machine)).steps < UInt64.size) :
    prime machine = total Machine.prime machine := by
  revert fits
  rw [Request.Runs, Request.enter_prime, prime, total, Machine.prime, get_bind_apply,
    get_bind_apply]
  cases machine.primed with
  | true => exact fun _ => rfl
  | false =>
      simp only [Bool.false_eq_true, if_false, set_bind_apply]
      cases machine.font with
      | none => exact fun _ => rfl
      | some font =>
          dsimp only
          cases font.controlValueProgram with
          | none => exact fun _ => rfl
          | some bytes =>
              dsimp only
              rw [decodeTable, decode?_eq, defined_some, pure_bind, Machine.decodeTable]
              cases decode bytes with
              | error malformation => exact fun _ => rfl
              | ok program =>
                  intro fits
                  exact resetSteps_bind_eq ((agrees_runWhole agrees_run program).within _)
                    (fits ⟨_, _, rfl⟩)

theorem decodeFontProgram_eq :
    decodeFontProgram machine = total Machine.decodeFontProgram machine := by
  rw [decodeFontProgram, total, Machine.decodeFontProgram, get_bind_apply, get_bind_apply]
  cases machine.decodedFontProgram with
  | some program => rfl
  | none =>
      cases machine.font.bind FontTables.fontProgram with
      | none => rfl
      | some bytes =>
          dsimp only
          rw [decodeTable, decode?_eq, defined_some, pure_bind, Machine.decodeTable]
          cases decode bytes with
          | error malformation => rfl
          | ok program => rfl

theorem runFontProgram_eq_of_absent
    (absent : ∀ program, machine.fontProgram? ≠ .ok (some program)) :
    runFontProgram run machine = total (Machine.runFontProgram Machine.run) machine := by
  rw [runFontProgram, total, Machine.runFontProgram, bind_apply, bind_apply, decodeFontProgram_eq,
    total, Machine.decodeFontProgram_apply]
  cases found : machine.fontProgram? with
  | error malformation => rfl
  | ok needed =>
      cases needed with
      | none => rfl
      | some program => exact absurd found (absent program)

theorem loadFontProgram_eq
    (fits : Request.loadFontProgram.Runs machine →
      (Outcome.machine (Machine.loadFontProgram machine)).steps < UInt64.size) :
    loadFontProgram machine = total Machine.loadFontProgram machine := by
  revert fits
  rw [Request.Runs, Request.enter_loadFontProgram, loadFontProgram, total, Machine.loadFontProgram,
    get_bind_apply, get_bind_apply]
  cases machine.fontProgramLoaded with
  | true => exact fun _ => rfl
  | false =>
      simp only [Bool.false_eq_true, if_false]
      intro fits
      by_cases present : ∃ program, machine.fontProgram? = .ok (some program)
      · rcases present with ⟨program, found⟩
        refine resetSteps_bind_eq (agrees_runFontProgram agrees_run) (fits ?_)
        rw [found]
        exact ⟨_, _, rfl⟩
      · exact @runFontProgram_eq_of_absent { machine with steps := 0 }
          fun program found => present ⟨program, found⟩

theorem perform_eq {request : Request}
    (fits : request.Runs machine →
      (Outcome.machine (request.perform machine)).steps < UInt64.size) :
    perform request machine = total request.perform machine := by
  cases request with
  | executeProgram program => exact executeProgram_eq (fits ⟨_, _, rfl⟩)
  | executeBytes bytes => exact executeBytes_eq fits
  | prime => exact prime_eq fits
  | loadFontProgram => exact loadFontProgram_eq fits

theorem ending_ne_undefined {outcome : Outcome α} {after : Machine} :
    ending outcome ≠ .error .undefined after := by
  cases outcome with
  | ok result left => exact nofun
  | error failure left => exact nofun

end Checked

namespace Machine

/-- A request of a session ends as it does with partial operations, none of which is applied outside
of its domain, if a program that it runs takes fewer than `2 ^ 64` steps. -/
theorem session_defined (limits : Limits) (font : Option FontTables) (history : List Operation)
    (request : Request)
    (fits : request.Runs (session limits font history) →
      (Outcome.machine (request.perform (session limits font history))).steps < UInt64.size) :
    Checked.perform request (session limits font history) =
        Checked.ending (request.perform (session limits font history)) ∧
      ∀ after, Checked.perform request (session limits font history) ≠ .error .undefined after := by
  have same := Checked.perform_eq fits
  refine ⟨same, fun after => ?_⟩
  rw [same]
  exact Checked.ending_ne_undefined

/-- The program skips a branch and calls a function, for which the font program is run. The function
moves a number up and divides one and a half by it. -/
theorem session_defined_call :
    let font : FontTables := { fontProgram := some [0xB0, 5, 0x2C, 0x8A, 0x62, 0x2D] }
    let machine := session {} (some font)
      [.editStack fun _ => ⟨[.fixed 96, .int 4, .int 3], 8⟩]
    let request := Request.executeBytes [0xB0, 0, 0x58, 0x1B, 0x59, 0xB0, 5, 0x2B]
    (Outcome.machine (request.perform machine)).steps < UInt64.size ∧
      Outcome.failure? (request.perform machine) = none ∧
      (Outcome.machine (request.perform machine)).memory.stack.toList = [.int 4, .fixed 32] ∧
      Checked.perform request machine = Checked.ending (request.perform machine) ∧
      ∀ after, Checked.perform request machine ≠ .error .undefined after := by
  intro font machine request
  have fits : (Outcome.machine (request.perform machine)).steps < UInt64.size := by decide +kernel
  have ends := session_defined {} (some font)
    [.editStack fun _ => ⟨[.fixed 96, .int 4, .int 3], 8⟩] request fun _ => fits
  exact ⟨fits, by decide +kernel, by decide +kernel, ends⟩

end Machine

end Hinting
