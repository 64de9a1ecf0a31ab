import Hinting.Proofs.Stepping.Completion

/-!
Requests of a machine at rest, in small steps.

The steps that a request leads to come to the outcome of the request and to no other one.
-/

namespace Hinting.Machine

/-! ## Steps are determined -/

theorem rightUnique_follows : Relator.RightUnique Follows := by
  intro state left right leftFollows rightFollows
  cases leftFollows
  cases rightFollows
  rfl

theorem Reaches.eq_of_ended {outcome : Outcome Unit} {state : Progress}
    (reaches : Reaches (.ended outcome) state) : state = .ended outcome := by
  rcases Relation.ReflTransGen.cases_head reaches with equal | ⟨next, follows, _⟩
  · exact equal.symm
  · cases follows

theorem Reaches.onward {first middle : Progress} {outcome : Outcome Unit}
    (reaches : Reaches first middle) (ends : Reaches first (.ended outcome)) :
    Reaches middle (.ended outcome) := by
  rcases Relation.ReflTransGen.total_of_right_unique rightUnique_follows reaches ends with
    onward | beyond
  · exact onward
  · rw [Reaches.eq_of_ended beyond]
    exact .refl

/-! ## Outermost programs -/

def runOutermost : Purpose → Program → MachineAction Unit
  | .program, program => runWhole run program
  | .controlValueProgram, program => within .controlValueProgram (runWhole run program)
  | .fontProgram, program => finishFontProgram run program
  | .function _ _, program => run program

def atEndOfWhole (purpose : Purpose) : Outcome Unit → Progress
  | .ok _ machine => finishWhole purpose [] machine
  | .error failure machine => .ended (fail purpose [] failure machine)

theorem atEndOfWhole_run {purpose : Purpose} (outermost : purpose.isFunction = false)
    (program : Program) (machine : Machine) :
    atEndOfWhole purpose (run program machine) = .ended (runOutermost purpose program machine) := by
  cases purpose with
  | function id more => exact absurd outermost.symm Bool.false_ne_true
  | _ =>
      simp only [runOutermost, within, finishFontProgram_apply, runWhole]
      cases run program machine with
      | error failure after => rfl
      | ok result after =>
          simp only [atEndOfWhole, finishWhole]
          cases after.capture <;> rfl

theorem Nested.reaches_runOutermost {limits : Limits} {purpose : Purpose} {program : Program}
    {machine : Machine} (nested : Nested limits ⟨purpose, program, 0⟩ [] machine)
    (outermost : purpose.isFunction = false) :
    Reaches (.running ⟨purpose, program, 0⟩ [] machine)
      (.ended (runOutermost purpose program machine)) := by
  have arrives := nested.arrives
  rw [← atEndOfWhole_run outermost]
  cases ends : run program machine with
  | error failure after =>
      rw [ends] at arrives
      exact arrives
  | ok result after =>
      rw [ends] at arrives
      have finishes := arrives.trans (reaches_finish _ _ _ _)
      cases purpose with
      | function id more => exact absurd outermost.symm Bool.false_ne_true
      | _ => exact finishes

/-! ## Requests -/

theorem Request.perform_eq (request : Request) :
    request.perform = (do
      match ← request.enter with
      | none => return
      | some active => runOutermost active.purpose active.program) := by
  cases request with
  | executeProgram program => rfl
  | executeBytes bytes =>
      rw [perform, enter, Machine.executeBytes]
      cases decode bytes with
      | ok program => rfl
      | error malformation => rfl
  | prime =>
      rw [perform, enter, Machine.prime, bind_assoc]
      refine bind_congr fun machine => ?_
      cases machine.primed with
      | true => rfl
      | false =>
          simp only [Bool.false_eq_true, if_false, bind_assoc]
          refine bind_congr fun _ => ?_
          cases machine.font with
          | none => rfl
          | some font =>
              dsimp only
              cases font.controlValueProgram with
              | none => rfl
              | some bytes =>
                  simp only [bind_assoc, pure_bind]
                  rfl
  | loadFontProgram =>
      rw [perform, enter, Machine.loadFontProgram, bind_assoc]
      refine bind_congr fun machine => ?_
      cases machine.fontProgramLoaded with
      | true => rfl
      | false =>
          simp only [Bool.false_eq_true, if_false, bind_assoc, runFontProgram_eq, enterFontProgram]
          refine bind_congr fun _ => bind_congr fun found => ?_
          cases found with
          | none => rfl
          | some program => rfl

/-! ## How requests begin -/

def Request.Runs (request : Request) (machine : Machine) : Prop :=
  ∃ active after, request.enter machine = .ok (some active) after

theorem Request.enter_prime (machine : Machine) :
    Request.prime.enter machine =
      if machine.primed then .ok none machine
      else
        match machine.font with
        | none => .ok none { machine with primed := true }
        | some font =>
            match font.controlValueProgram with
            | none =>
                .ok none
                  { machine with
                    primed := true
                    journal := .noControlValueProgram :: machine.journal }
            | some bytes =>
                match decode bytes with
                | .ok program =>
                    .ok (some ⟨.controlValueProgram, program, 0⟩)
                      { machine with
                        primed := true
                        steps := 0
                        journal := .runningControlValueProgram program.length :: machine.journal }
                | .error malformation =>
                    .error ⟨[.controlValueProgramDecoding], .malformedProgram malformation⟩
                      { machine with primed := true } := by
  rw [Request.enter, get_bind_apply]
  split
  · rfl
  · change (match machine.font with | none => _ | some font => _ : MachineAction _) _ = _
    cases machine.font with
    | none => rfl
    | some font =>
        dsimp only
        cases font.controlValueProgram with
        | none => rfl
        | some bytes =>
            dsimp only
            rw [bind_apply, decodeTable_apply]
            cases decode bytes with
            | ok program => rfl
            | error malformation => rfl

theorem Request.enter_loadFontProgram (machine : Machine) :
    Request.loadFontProgram.enter machine =
      if machine.fontProgramLoaded then .ok none machine
      else
        match machine.fontProgram? with
        | .ok none => .ok none { machine with steps := 0 }
        | .ok (some program) =>
            .ok (some ⟨.fontProgram, program, 0⟩)
              (startFontProgram program { machine with steps := 0 })
        | .error malformation =>
            .error ⟨[.fontProgramDecoding], .malformedProgram malformation⟩
              { machine with steps := 0 } := by
  rw [Request.enter, get_bind_apply]
  split
  · rfl
  · exact enterFontProgram_apply { machine with steps := 0 }

/-- What a request finds, and what becomes of the machine before a program is run for it. -/
inductive Entry (machine : Machine) : Request → Outcome (Option Activation) → Prop
  | program (program : Program) :
      Entry machine (.executeProgram program)
        (.ok (some ⟨.program, program, 0⟩) { machine with steps := 0 })
  | bytes {bytes : List UInt8} {program : Program} (decoded : decode bytes = .ok program) :
      Entry machine (.executeBytes bytes)
        (.ok (some ⟨.program, program, 0⟩) { machine with steps := 0 })
  | malformedBytes {bytes : List UInt8} {malformation : Malformation}
      (malformed : decode bytes = .error malformation) :
      Entry machine (.executeBytes bytes)
        (.error { cause := .malformedProgram malformation } machine)
  | primedBefore (primed : machine.primed = true) : Entry machine .prime (.ok none machine)
  | nothingToPrime (journal : List Event) (unprimed : machine.primed = false)
      (absent : machine.font.bind FontTables.controlValueProgram = none) :
      Entry machine .prime (.ok none { machine with primed := true, journal })
  | controlValueProgram {bytes : List UInt8} {program : Program}
      (unprimed : machine.primed = false)
      (offered : machine.font.bind FontTables.controlValueProgram = some bytes)
      (decoded : decode bytes = .ok program) :
      Entry machine .prime
        (.ok (some ⟨.controlValueProgram, program, 0⟩)
          { machine with
            primed := true
            steps := 0
            journal := .runningControlValueProgram program.length :: machine.journal })
  | malformedControlValueProgram {bytes : List UInt8} {malformation : Malformation}
      (unprimed : machine.primed = false)
      (offered : machine.font.bind FontTables.controlValueProgram = some bytes)
      (malformed : decode bytes = .error malformation) :
      Entry machine .prime
        (.error ⟨[.controlValueProgramDecoding], .malformedProgram malformation⟩
          { machine with primed := true })
  | loadedBefore (loaded : machine.fontProgramLoaded = true) :
      Entry machine .loadFontProgram (.ok none machine)
  | nothingToLoad (unloaded : machine.fontProgramLoaded = false)
      (absent : machine.fontProgram? = .ok none) :
      Entry machine .loadFontProgram (.ok none { machine with steps := 0 })
  | fontProgram {program : Program} (unloaded : machine.fontProgramLoaded = false)
      (found : machine.fontProgram? = .ok (some program)) :
      Entry machine .loadFontProgram
        (.ok (some ⟨.fontProgram, program, 0⟩)
          (startFontProgram program { machine with steps := 0 }))
  | malformedFontProgram {malformation : Malformation}
      (unloaded : machine.fontProgramLoaded = false)
      (malformed : machine.fontProgram? = .error malformation) :
      Entry machine .loadFontProgram
        (.error ⟨[.fontProgramDecoding], .malformedProgram malformation⟩
          { machine with steps := 0 })

theorem entry_prime (machine : Machine) :
    Entry machine .prime (Request.prime.enter machine) := by
  rw [Request.enter_prime]
  split
  · next primed => exact .primedBefore primed
  · next unprimed =>
      have unprimed := Bool.eq_false_iff.mpr unprimed
      split
      · next absent => exact .nothingToPrime machine.journal unprimed (by rw [absent]; rfl)
      · next font present =>
          have provides : machine.font.bind FontTables.controlValueProgram =
              font.controlValueProgram := by
            rw [present]
            rfl
          split
          · next absent => exact .nothingToPrime _ unprimed (provides.trans absent)
          · next bytes offered =>
              split
              · next program decoded =>
                  exact .controlValueProgram unprimed (provides.trans offered) decoded
              · next malformation malformed =>
                  exact .malformedControlValueProgram unprimed (provides.trans offered) malformed

theorem entry_loadFontProgram (machine : Machine) :
    Entry machine .loadFontProgram (Request.loadFontProgram.enter machine) := by
  rw [Request.enter_loadFontProgram]
  split
  · next loaded => exact .loadedBefore loaded
  · next unloaded =>
      have unloaded := Bool.eq_false_iff.mpr unloaded
      split
      · next absent => exact .nothingToLoad unloaded absent
      · next program found => exact .fontProgram unloaded found
      · next malformation malformed => exact .malformedFontProgram unloaded malformed

theorem Request.entry (request : Request) (machine : Machine) :
    Entry machine request (request.enter machine) := by
  cases request with
  | executeProgram program => exact .program program
  | executeBytes bytes =>
      rw [enter]
      cases decoded : decode bytes with
      | ok program => exact .bytes decoded
      | error malformation => exact .malformedBytes decoded
  | prime => exact entry_prime machine
  | loadFontProgram => exact entry_loadFontProgram machine

inductive Enters (machine : Machine) : Outcome (Option Activation) → Prop
  | fails (failure : Failure) (after : Machine) (limits : after.limits = machine.limits) :
      Enters machine (.error failure after)
  | rests (after : Machine) (limits : after.limits = machine.limits) :
      Enters machine (.ok none after)
  | begins (purpose : Purpose) (program : Program) (after : Machine)
      (outermost : purpose.isFunction = false) (limits : after.limits = machine.limits)
      (callDepth : after.callDepth = machine.callDepth)
      (inFontProgram : machine.inFontProgram = false →
        after.inFontProgram.toNat = fontPrograms [purpose])
      (steps : after.steps = 0) :
      Enters machine (.ok (some ⟨purpose, program, 0⟩) after)

theorem Request.enters (request : Request) (machine : Machine) :
    Enters machine (request.enter machine) := by
  have entry := request.entry machine
  generalize request.enter machine = outcome at entry ⊢
  cases entry with
  | malformedBytes | malformedControlValueProgram | malformedFontProgram =>
      exact .fails _ _ rfl
  | primedBefore | nothingToPrime | loadedBefore | nothingToLoad => exact .rests _ rfl
  | program program => exact .begins .program program _ rfl rfl rfl (congrArg Bool.toNat) rfl
  | bytes => exact .begins .program _ _ rfl rfl rfl (congrArg Bool.toNat) rfl
  | controlValueProgram =>
      exact .begins .controlValueProgram _ _ rfl rfl rfl (congrArg Bool.toNat) rfl
  | fontProgram => exact .begins .fontProgram _ _ rfl rfl rfl (fun _ => rfl) rfl

theorem Enters.steps_eq {machine after : Machine} {active : Activation}
    (enters : Enters machine (.ok (some active) after)) : after.steps = 0 := by
  cases enters with
  | begins purpose program after outermost limits callDepth inFontProgram steps => exact steps

/-- Nothing has changed but the flags, the steps and what has been reported, and that the font
program may have been loaded. -/
structure Prepares (before after : Machine) : Prop where
  limits : after.limits = before.limits
  font : after.font = before.font
  memory : after.memory = before.memory
  functions : after.functions = before.functions
  capture : after.capture = before.capture
  callDepth : after.callDepth = before.callDepth
  keeps : before.KeepsFontProgram → after.KeepsFontProgram

theorem machine_begin (request : Request) (machine : Machine) :
    (request.begin machine).machine = Outcome.machine (request.enter machine) := by
  rw [Request.begin]
  cases request.enter machine with
  | error failure after => rfl
  | ok entry after =>
      cases entry with
      | none => rfl
      | some active => rfl

theorem Request.prepares_enter (request : Request) (machine : Machine) :
    Prepares machine (Outcome.machine (request.enter machine)) := by
  have entry := request.entry machine
  generalize request.enter machine = outcome at entry ⊢
  cases entry with
  | fontProgram unloaded found =>
      exact ⟨rfl, rfl, rfl, rfl, rfl, rfl, fun keeps => keeps.load found⟩
  | _ => exact ⟨rfl, rfl, rfl, rfl, rfl, rfl, id⟩

structure Begins (limits : Limits) (active : Activation) (machine : Machine) : Prop where
  index : active.index = 0
  outermost : active.purpose.isFunction = false
  nested : Nested limits active [] machine
  steps : machine.steps = 0

theorem AtRest.begins_enter {machine after : Machine} {active : Activation} (rest : machine.AtRest)
    (request : Request) (entered : request.enter machine = .ok (some active) after) :
    Begins machine.limits active after := by
  have enters := request.enters machine
  rw [entered] at enters
  cases enters with
  | begins purpose program _ outermost limits callDepth inFontProgram steps =>
      have none : after.callDepth = 0 := callDepth.trans rest.callDepth
      exact
        { index := rfl
          outermost
          steps
          nested :=
            { sameLimits := limits
              callDepth := by
                rw [none, purposes, functionBodies, List.countP_cons_of_neg (by simp [outermost])]
                rfl
              bounded := Nat.le_trans (Nat.le_of_eq none) (Nat.zero_le _)
              inFontProgram := inFontProgram rest.inFontProgram
              inside := Nat.zero_le _
              callersInside := fun _ impossible => nomatch impossible
              serving := trivial } }

theorem AtRest.nested_begin {machine : Machine} (rest : machine.AtRest) (request : Request) :
    (request.begin machine).Nested machine.limits := by
  rw [Request.begin]
  cases entered : request.enter machine with
  | error failure after => trivial
  | ok entry after =>
      cases entry with
      | none => trivial
      | some active => exact (rest.begins_enter request entered).nested

theorem AtRest.reaches_perform {machine : Machine} (rest : machine.AtRest) (request : Request) :
    Reaches (request.begin machine) (.ended (request.perform machine)) := by
  rw [Request.begin, Request.perform_eq, bind_apply]
  cases entered : request.enter machine with
  | error failure after => exact .refl
  | ok entry after =>
      cases entry with
      | none => exact .refl
      | some active =>
          have begins := rest.begins_enter request entered
          rcases active with ⟨purpose, program, index⟩
          cases begins.index
          exact begins.nested.reaches_runOutermost begins.outermost

theorem AtRest.eq_perform {machine : Machine} (rest : machine.AtRest) {request : Request}
    {outcome : Outcome Unit} (reaches : Reaches (request.begin machine) (.ended outcome)) :
    outcome = request.perform machine := by
  cases (reaches.onward (rest.reaches_perform request)).eq_of_ended
  rfl

end Hinting.Machine
