import Hinting.Proofs.Stepping.Retention

/-!
Where the programs of a run come from.

Every program that is active is the one that was asked for, a program of the font, or the body that
is defined for the function it is active for.
-/

namespace Hinting

theorem Memory.maintained_true : Memory.Maintained fun _ => True where
  instruction _ _ _ := trivial
  stackCall _ _ _ := trivial
  writeStorage _ _ _ _ := trivial
  setControlValue _ _ _ _ := trivial

namespace Machine

def Request.program? : Request → Option Program
  | executeProgram program => some program
  | executeBytes bytes => (decode bytes).toOption
  | prime => none
  | loadFontProgram => none

inductive Sourced (request : Request) (machine : Machine) : Purpose → Program → Prop
  | program {program : Program} (given : request.program? = some program) :
      Sourced request machine .program program
  | controlValueProgram {bytes : List UInt8} {program : Program} (asked : request = .prime)
      (offered : machine.font.bind FontTables.controlValueProgram = some bytes)
      (decoded : decode bytes = .ok program) :
      Sourced request machine .controlValueProgram program
  | fontProgram {bytes : List UInt8} {program : Program}
      (offered : machine.font.bind FontTables.fontProgram = some bytes)
      (decoded : decode bytes = .ok program) :
      Sourced request machine .fontProgram program
  | function {id : UInt32} {body : Program} (more : Nat)
      (defined : machine.functions.get? id = some body) :
      Sourced request machine (.function id more) body

/-- All active programs are sourced, and so is what is kept of the font program. -/
structure AllSourced (request : Request) (active : Activation) (callers : List Caller)
    (machine : Machine) : Prop where
  keeps : machine.KeepsFontProgram
  active : Sourced request machine active.purpose active.program
  callers : ∀ caller ∈ callers, Sourced request machine caller.purpose caller.program

def Progress.AllSourced (request : Request) : Progress → Prop
  | running active callers machine => Machine.AllSourced request active callers machine
  | ended _ => True

section

variable {request : Request} {active : Activation} {callers : List Caller}
  {machine after : Machine}

theorem Sourced.later {invariant : Memory → Prop} {purpose : Purpose} {program : Program}
    (sourced : Sourced request machine purpose program)
    (retains : Retains invariant machine after) : Sourced request after purpose program := by
  cases sourced with
  | program given => exact .program given
  | controlValueProgram asked offered decoded =>
      rw [← retains.font] at offered
      exact .controlValueProgram asked offered decoded
  | fontProgram offered decoded =>
      rw [← retains.font] at offered
      exact .fontProgram offered decoded
  | function more defined => exact .function more (retains.functions _ _ defined)

theorem AllSourced.later {invariant : Memory → Prop}
    (sourced : AllSourced request active callers machine)
    (retains : Retains invariant machine after) : AllSourced request active callers after where
  keeps := retains.keeps sourced.keeps
  active := sourced.active.later retains
  callers caller member := (sourced.callers caller member).later retains

/-! ## Entering -/

theorem sourced_enterDefined {invocation : Invocation} {entered : Activation}
    (ends : enterDefined invocation machine = .ok entered after) :
    Sourced request after entered.purpose entered.program := by
  rw [enterDefined_apply] at ends
  cases known : machine.functions.get? invocation.id with
  | none =>
      rw [known] at ends
      cases ends
  | some body =>
      rw [known] at ends
      dsimp only at ends
      rw [enter_apply] at ends
      split at ends
      · cases ends
      · cases ends
        exact .function invocation.count known

theorem sourced_invoke {invocation : Invocation} {entered : Activation}
    (keeps : machine.KeepsFontProgram) (ends : invoke invocation machine = .ok entered after) :
    Sourced request after entered.purpose entered.program := by
  rw [invoke_apply] at ends
  split at ends
  · exact sourced_enterDefined ends
  · dsimp only at ends
    split at ends
    · exact sourced_enterDefined ends
    · next program found =>
        cases ends
        rcases keeps.exists_decode found with ⟨bytes, offered, decodes⟩
        exact .fontProgram offered decodes
    · cases ends

/-! ## Steps -/

theorem AllSourced.await {caller : Caller} {outcome : Outcome Activation}
    (waiting : AllSourced request caller.toActivation callers machine)
    (retains : Retains (fun _ => True) machine (stateAfter outcome))
    (entered : ∀ active after, outcome = .ok active after →
      Sourced request after active.purpose active.program) :
    (await caller callers outcome).AllSourced request := by
  cases outcome with
  | error failure after => trivial
  | ok active after =>
      have later := waiting.later retains
      exact
        { keeps := later.keeps
          active := entered active after rfl
          callers := List.forall_mem_cons.mpr ⟨later.active, later.callers⟩ }

theorem AllSourced.fetch (sourced : AllSourced request active callers machine) {site : Context}
    {outcome : Outcome Effect} (retains : Retains (fun _ => True) machine (stateAfter outcome)) :
    (proceed active callers site outcome).AllSourced request := by
  cases outcome with
  | error failure after => trivial
  | ok effect after =>
      have later := sourced.later retains
      cases effect with
      | goOn pass => exact { later with }
      | call invocation =>
          have waiting : AllSourced request (active.calling site invocation).toActivation callers
              after := { later with }
          exact waiting.await (Retains.ignoresNesting.invoke invocation after (.refl trivial))
            fun _ _ => sourced_invoke later.keeps

theorem AllSourced.finishBody {id : UInt32} {more index : Nat} {body : Program}
    (sourced : AllSourced request ⟨.function id more, body, index⟩ callers machine) :
    (finishBody id more body callers machine).AllSourced request := by
  cases more with
  | zero =>
      have left : Retains (fun _ => True) machine
          { machine with callDepth := machine.callDepth - 1 } :=
        ⟨rfl, rfl, trivial, .refl _, fun keeps => keeps⟩
      have later := sourced.later left
      cases callers with
      | nil => trivial
      | cons caller others =>
          rcases List.forall_mem_cons.mp later.callers with ⟨next, waiting⟩
          exact { keeps := later.keeps, active := next, callers := waiting }
  | succ more =>
      have begun : Retains (fun _ => True) machine machine := .refl trivial
      have counted := Retains.tick machine begun
      rw [Machine.finishBody]
      cases ticked : tick machine with
      | error failure after => trivial
      | ok result after =>
          rw [ticked] at counted
          have later := sourced.later counted
          cases later.active with
          | function _ defined => exact { later with active := .function more defined }

theorem AllSourced.succeed (sourced : AllSourced request active callers machine)
    (purpose : Purpose) :
    (succeed purpose callers machine).AllSourced request := by
  unfold Machine.succeed
  split
  · next caller others =>
      have left : Retains (fun _ => True) machine machine.leaveFontProgram :=
        ⟨rfl, rfl, trivial, .refl _, fun keeps => keeps⟩
      rcases List.forall_mem_cons.mp sourced.callers with ⟨next, others⟩
      have waiting : AllSourced request caller.toActivation _ machine :=
        { keeps := sourced.keeps, active := next, callers := others }
      have entered := Retains.ignoresNesting.enterDefined caller.invocation _ left
      exact waiting.await entered fun _ _ => sourced_enterDefined
  · trivial
  · trivial

theorem AllSourced.finish (sourced : AllSourced request active callers machine) :
    (finish active callers machine).AllSourced request := by
  rcases active with ⟨purpose, program, index⟩
  cases purpose with
  | function id more => exact sourced.finishBody
  | _ =>
      change (finishWhole _ callers machine).AllSourced request
      rw [finishWhole]
      split
      · trivial
      · exact sourced.succeed _

theorem AllSourced.advance (sourced : AllSourced request active callers machine) :
    (advance active callers machine).AllSourced request := by
  rw [Machine.advance]
  split
  · exact sourced.fetch (Retains.fetch Memory.maintained_true _ _ _ machine (.refl trivial))
  · exact sourced.finish

theorem Progress.AllSourced.of_reaches {first last : Progress} (sourced : first.AllSourced request)
    (reaches : Reaches first last) : last.AllSourced request :=
  reaches.lasts (fun _ _ _ now => Machine.AllSourced.advance now) sourced

end

theorem Request.sourced_enter {request : Request} {machine after : Machine} {active : Activation}
    (keeps : machine.KeepsFontProgram) (entered : request.enter machine = .ok (some active) after) :
    Sourced request after active.purpose active.program := by
  have entry := request.entry machine
  rw [entered] at entry
  cases entry with
  | program program => exact .program rfl
  | bytes decoded => exact .program (by rw [program?, decoded]; rfl)
  | controlValueProgram _ offered decoded => exact .controlValueProgram rfl offered decoded
  | fontProgram _ found =>
      rcases keeps.exists_decode found with ⟨bytes, offered, decodes⟩
      exact .fontProgram offered decodes

theorem AtRest.keeps_of_reaches {machine : Machine} (rest : machine.AtRest) {request : Request}
    {state : Progress} (reaches : Reaches (request.begin machine) state) :
    state.machine.KeepsFontProgram := by
  have begun : Retains (fun _ => True) machine machine := .refl trivial
  exact ((begun.begin request).of_reaches Memory.maintained_true reaches).keeps rest.keeps

theorem Request.allSourced_begin (request : Request) {machine : Machine}
    (keeps : machine.KeepsFontProgram) : (request.begin machine).AllSourced request := by
  have prepares := request.prepares_enter machine
  rw [Request.begin]
  cases entered : request.enter machine with
  | error failure after => trivial
  | ok entry after =>
      rw [entered] at prepares
      cases entry with
      | none => trivial
      | some active =>
          exact
            { keeps := prepares.keeps keeps
              active := sourced_enter keeps entered
              callers := List.forall_mem_nil _ }

end Machine

end Hinting
