import Hinting.Proofs.Session.History

/-!
Runs come to an end, also without a budget.

The outcome of a request is defined with a fixed number of levels for nested programs. Small steps
know of no such number: that they come to the same outcome means that it is never reached.
-/

namespace Hinting.Machine

/-- No run from the state goes on forever. -/
def Terminates (state : Progress) : Prop :=
  Acc (fun next before => Follows before next) state

theorem Reaches.terminates {first : Progress} {outcome : Outcome Unit}
    (reaches : Reaches first (.ended outcome)) : Terminates first := by
  induction reaches using Relation.ReflTransGen.head_induction_on with
  | refl => exact .intro _ fun _ impossible => nomatch impossible
  | head follows _ induction =>
      refine .intro _ fun next other => ?_
      cases rightUnique_follows follows other
      exact induction

/-- Every request of a session comes to an end: to its outcome, from wherever its steps have led. On
the way, no more functions are active than the limit admits, and the font program not more than
once. Every step but a call or a return brings its program forward, or begins one of the times that
a function is called for, of which one less is left then. Control instructions lead forward, and
not beyond the end of the program. -/
theorem session_terminates (limits : Limits) (font : Option FontTables)
    (history : List Operation) (request : Request) :
    Terminates (request.begin (session limits font history)) ∧
      (∀ state, Reaches (request.begin (session limits font history)) state →
        Reaches state (.ended (request.perform (session limits font history)))) ∧
      (∀ active callers machine,
        Reaches (request.begin (session limits font history)) (.running active callers machine) →
          functionBodies (purposes active callers) ≤ limits.maxCallDepth ∧
            fontPrograms (purposes active callers) ≤ 1 ∧
            active.index ≤ active.program.length ∧ Serving active callers ∧
            Advances active callers machine (advance active callers machine)) ∧
      ∀ call (program : Program) index operation machine pass after,
        program[index]? = some (.control operation) →
        control call (program.drop (index + 1)) operation machine = .ok pass after →
          index < index + 1 + pass ∧ index + 1 + pass ≤ program.length := by
  have resting := resting_session limits font history
  have ends := resting.rest.reaches_perform request
  refine ⟨ends.terminates, fun state reaches => reaches.onward ends, ?_, ?_⟩
  · intro active callers machine reaches
    have begun := resting.rest.nested_begin request
    rw [resting.limits] at begun
    have nested : Nested limits active callers machine := begun.of_reaches reaches
    refine ⟨?_, ?_, nested.inside, nested.serving, advances active callers machine⟩
    · rw [← nested.callDepth]
      exact nested.bounded
    · rw [← nested.inFontProgram]
      exact Bool.toNat_le machine.inFontProgram
  · intro call program index operation machine pass after fetched controlled
    have inside := (List.getElem?_eq_some_iff.mp fetched).1
    have jumped : pass ≤ (program.drop (index + 1)).length :=
      returns_control operation _ _ _ _ controlled
    rw [List.length_drop] at jumped
    omega

/-- A run that is in the font program, and a look ahead over a branch that is not taken. -/
theorem session_terminates_call :
    let font : FontTables := { fontProgram := some [0xB0, 5, 0x2C, 0x2D] }
    let machine := session {} (some font) [.editStack fun _ => ⟨[.int 5], 8⟩]
    let request := Request.executeProgram [.control .call]
    Terminates (request.begin machine) ∧
      (∃ program caller after,
        Reaches (request.begin machine) (.running ⟨.fontProgram, program, 0⟩ [caller] after) ∧
          Reaches (.running ⟨.fontProgram, program, 0⟩ [caller] after)
            (.ended (request.perform machine)) ∧
          functionBodies [.fontProgram, caller.purpose] ≤ 64 ∧
          fontPrograms [.fontProgram, caller.purpose] ≤ 1) ∧
      ∃ pass after,
        control (fun _ _ => pure ()) [.stack .pop, .control .endIf] .beginIf
            { new {} with memory := { stack := ⟨[.int 0], 8⟩ } } = .ok pass after ∧
          0 < 0 + 1 + pass ∧ 0 + 1 + pass ≤ 3 := by
  intro font machine request
  rcases session_terminates {} (some font) [.editStack fun _ => ⟨[.int 5], 8⟩] request with
    ⟨terminates, onward, nested, forward⟩
  have reaches : Reaches (request.begin machine) _ :=
    .single (.advance ⟨.program, [.control .call], 0⟩ [] _)
  have bounds := nested _ _ _ reaches
  exact ⟨terminates, ⟨_, _, _, reaches, onward _ reaches, bounds.1, bounds.2.1⟩,
    ⟨2, _, rfl, forward (fun _ _ => pure ()) [.control .beginIf, .stack .pop, .control .endIf] 0
      .beginIf { new {} with memory := { stack := ⟨[.int 0], 8⟩ } } 2 _ rfl rfl⟩⟩

end Hinting.Machine
