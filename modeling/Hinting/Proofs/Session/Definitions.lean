import Hinting.Proofs.Session.Calls
import Hinting.Proofs.Stepping.Recording

/-!
The functions of a session.

A function stays as it was first defined, and it was defined as a whole: its body is what stands
between an FDEF and the next ENDF in a program that some request has run.
-/

namespace Hinting.Machine

variable {machine : Machine} {id : UInt32} {body : Program}

/-! ## One operation -/

theorem AtRest.grows_afterOperation (rest : machine.AtRest) (operation : Operation) :
    machine.functions.Grows (machine.afterOperation operation).functions := by
  cases operation with
  | call call =>
      exact (Retains.afterCall Memory.maintained_true rest (.refl trivial) call).functions
  | editStack edit => exact .refl _
  | editControlValues edit => exact .refl _

theorem AtRest.accounted_request (rest : machine.AtRest) (request : Request) :
    Accounted request machine (machine.afterCall request.call).functions := by
  rw [afterCall_request]
  exact rest.documented (rest.reaches_perform request)

theorem AtRest.defined_afterOperation (rest : machine.AtRest) (operation : Operation)
    (found : (machine.afterOperation operation).functions.get? id = some body) :
    machine.functions.get? id = some body ∨
      ∃ request : Request, operation = .call request.call ∧ request.Defines machine id body := by
  cases operation with
  | editStack edit => exact .inl found
  | editControlValues edit => exact .inl found
  | call call =>
      rcases call.request_or_memoryAction with ⟨request, rfl⟩ | ⟨action, _, performs⟩
      · rcases rest.accounted_request request id body found with known | defines
        · exact .inl known
        · exact .inr ⟨request, rfl, defines⟩
      · rw [afterOperation, afterCall_eq, performs, (sameControl_onMemory action machine).functions]
          at found
        exact .inl found

theorem Request.grows_begin (request : Request) {state : Progress}
    (reaches : Reaches (request.begin machine) state) :
    machine.functions.Grows state.machine.functions := by
  have begun : Retains (fun _ => True) machine machine := .refl trivial
  exact ((begun.begin request).of_reaches Memory.maintained_true reaches).functions

/-! ## Sessions -/

theorem Resting.grows {limits : Limits} (resting : Resting limits machine)
    (later : List Operation) :
    machine.functions.Grows (later.foldl Machine.afterOperation machine).functions := by
  induction later generalizing machine with
  | nil => exact .refl _
  | cons operation later induction =>
      intro id body found
      exact induction (resting.afterOperation operation) id body
        (resting.rest.grows_afterOperation operation id body found)

theorem Resting.defined {limits : Limits} (resting : Resting limits machine)
    (history : List Operation)
    (found : (history.foldl Machine.afterOperation machine).functions.get? id = some body) :
    machine.functions.get? id = some body ∨
      ∃ (earlier : List Operation) (request : Request) (later : List Operation),
        history = earlier ++ .call request.call :: later ∧
          request.Defines (earlier.foldl Machine.afterOperation machine) id body := by
  induction history generalizing machine with
  | nil => exact .inl found
  | cons operation history induction =>
      rcases induction (resting.afterOperation operation) found with
        known | ⟨earlier, request, later, rfl, defines⟩
      · rcases resting.rest.defined_afterOperation operation known with
          before | ⟨request, rfl, defines⟩
        · exact .inl before
        · exact .inr ⟨[], request, history, rfl, defines⟩
      · exact .inr ⟨operation :: earlier, request, later, rfl, defines⟩

theorem get?_opened (limits : Limits) (font : Option FontTables) (id : UInt32) (body : Program) :
    (opened limits font).functions.get? id ≠ some body := by
  intro found
  cases font with
  | none => exact nomatch found.symm.trans Std.ExtTreeMap.getElem?_empty
  | some font => exact nomatch found.symm.trans Std.ExtTreeMap.getElem?_empty

theorem session_append (limits : Limits) (font : Option FontTables)
    (history later : List Operation) :
    session limits font (history ++ later) =
      later.foldl afterOperation (session limits font history) :=
  List.foldl_append

/-- The functions of a session only become more. Each of them keeps its body, and has it from a
request that ran a program with exactly this between an FDEF, executed with the id of the function,
and the first ENDF behind it. A definition that is still open when the run ends adds nothing. -/
theorem session_definitions (limits : Limits) (font : Option FontTables)
    (history : List Operation) :
    (∀ id body, (session limits font history).functions.get? id = some body →
      (∀ later, (session limits font (history ++ later)).functions.get? id = some body ∧
        ∀ (request : Request) state,
          Reaches (request.begin (session limits font (history ++ later))) state →
            state.machine.functions.get? id = some body) ∧
        body.DefinesNothing ∧
        ∃ (earlier : List Operation) (request : Request) (later : List Operation),
          history = earlier ++ .call request.call :: later ∧
            request.Defines (session limits font earlier) id body) ∧
      ∀ (request : Request) active callers machine capture,
        Reaches (request.begin (session limits font history)) (.running active callers machine) →
          machine.capture = some capture →
            ∃ (opening : Opening) (body : Program),
              opening.Records request (session limits font history) capture.id body machine ∧
                capture.recorded = body.reverse ∧
                ∀ outcome, Follows (.running active callers machine) (.ended outcome) →
                  (session limits font (history ++ [.call request.call])).functions =
                    opening.machine.functions := by
  have resting := resting_session limits font history
  constructor
  · intro id body found
    refine ⟨fun later => ?_, resting.rest.bodies id body found, ?_⟩
    · have lasts : (session limits font (history ++ later)).functions.get? id = some body := by
        rw [session_append]
        exact resting.grows later id body found
      exact ⟨lasts, fun request state reaches => request.grows_begin reaches id body lasts⟩
    · rcases (resting_opened limits font).defined history found with
        known | ⟨earlier, request, later, split, defines⟩
      · exact absurd known (get?_opened limits font id body)
      · exact ⟨earlier, request, later, split, defines⟩
  · intro request active callers machine capture reaches opened
    rcases resting.rest.records_of_open reaches opened with
      ⟨opening, body, records, recorded, interrupted⟩
    refine ⟨opening, body, records, recorded, fun outcome follows => ?_⟩
    have ended : request.perform (session limits font history) = outcome := by
      have reached : Reaches _ (.ended outcome) := reaches.tail follows
      cases (reached.onward (resting.rest.reaches_perform request)).eq_of_ended
      rfl
    rw [session_append]
    change ((session limits font history).afterCall request.call).functions = _
    rw [afterCall_request, ended]
    exact interrupted outcome follows

/-- A function that lasts beyond a definition that is left open, and how this comes to nothing in a
session of its own. -/
theorem session_definitions_dup :
    let history : List Operation :=
      [.call (.executeProgram [.push (.ofBytes [5]), .control .beginFunction, .stack .dup,
        .control .endFunction])]
    let program : Program := [.push (.ofBytes [7]), .control .beginFunction, .stack .dup]
    let request := Request.executeProgram program
    ((session {} none history).functions.get? 5 = some [.stack .dup] ∧
        (session {} none (history ++ [.call request.call])).functions.get? 5 =
          some [.stack .dup] ∧
        ∃ (earlier : List Operation) (first : Request) (later : List Operation),
          history = earlier ++ .call first.call :: later ∧
            first.Defines (session {} none earlier) 5 [.stack .dup]) ∧
      ∃ machine outcome,
        Reaches (request.begin (session {} none [])) (.running ⟨.program, program, 3⟩ [] machine) ∧
          machine.capture = some ⟨7, [.stack .dup]⟩ ∧
          Follows (.running ⟨.program, program, 3⟩ [] machine) (.ended outcome) ∧
          ∃ (opening : Opening) (body : Program),
            opening.Records request (session {} none []) 7 body machine ∧
              (session {} none [.call request.call]).functions = opening.machine.functions := by
  intro history program request
  have found : (session {} none history).functions.get? 5 = some [.stack .dup] := by
    decide +kernel
  have defined := (session_definitions {} none history).1 5 _ found
  refine ⟨⟨found, (defined.1 _).1, defined.2.2⟩, ?_⟩
  have reaches : Reaches (request.begin (session {} none []))
      (.running ⟨.program, program, 3⟩ [] _) :=
    .tail (.tail (.single (.advance ⟨.program, program, 0⟩ [] _))
      (.advance ⟨.program, program, 1⟩ [] _)) (.advance ⟨.program, program, 2⟩ [] _)
  rcases (session_definitions {} none []).2 request _ _ _ ⟨7, [.stack .dup]⟩ reaches rfl with
    ⟨opening, body, records, _, interrupted⟩
  exact ⟨_, _, reaches, rfl, .advance ⟨.program, program, 3⟩ [] _, opening, body, records,
    interrupted _ (.advance ⟨.program, program, 3⟩ [] _)⟩

end Hinting.Machine
