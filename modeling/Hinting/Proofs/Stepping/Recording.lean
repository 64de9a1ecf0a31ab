import Hinting.Proofs.Stepping.Definitions
import Hinting.Proofs.Stepping.Sources

/-!
How functions come to be defined.

A run that records a definition has executed an FDEF in the active program and has taken in every
instruction behind it. So the functions that a run adds are the instructions between an FDEF and the
first ENDF behind it.
-/

namespace Hinting.Machine

/-! ## Definitions in a run -/

/-- The state in which a program is about to execute an FDEF. -/
structure Opening where
  purpose : Purpose
  /-- The instructions before the FDEF, and those behind it. -/
  before : Program
  behind : Program
  callers : List Caller
  machine : Machine

namespace Opening

def program (opening : Opening) : Program :=
  opening.before ++ .control .beginFunction :: opening.behind

def state (opening : Opening) : Progress :=
  .running ⟨opening.purpose, opening.program, opening.before.length⟩ opening.callers
    opening.machine

/-- The same programs are active, `length` instructions behind the FDEF. -/
def later (opening : Opening) (length : Nat) (machine : Machine) : Progress :=
  .running ⟨opening.purpose, opening.program, opening.before.length + 1 + length⟩ opening.callers
    machine

/-- A request leads to the FDEF, with the id on top of the stack. The program is the one that was
asked for, or a program of the font. -/
structure Executes (request : Request) (start : Machine) (opening : Opening) (id : UInt32) :
    Prop where
  reached : Reaches (request.begin start) opening.state
  outermost : opening.purpose.isFunction = false
  sourced : Sourced request opening.machine opening.purpose opening.program
  closed : opening.machine.capture = none
  named : ∃ top below, opening.machine.memory.stack.values = top :: below ∧
    top.toIndex .function = .ok id

/-- The instructions of `body` have been recorded since the FDEF. -/
structure Records (request : Request) (start : Machine) (opening : Opening) (id : UInt32)
    (body : Program) (machine : Machine) : Prop extends Executes request start opening id where
  behind : ∃ rest, opening.behind = body ++ rest
  definesNothing : body.DefinesNothing
  recorded : Reaches opening.state (opening.later body.length machine)
  capture : machine.capture = some ⟨id, body.reverse⟩
  functions : machine.functions = opening.machine.functions

/-- The instruction behind `body` is an ENDF. It defines the function. -/
structure Completes (request : Request) (start : Machine) (opening : Opening) (id : UInt32)
    (body : Program) (machine after : Machine) : Prop
    extends Records request start opening id body machine where
  ended : ∃ rest, opening.behind = body ++ .control .endFunction :: rest
  unknown : machine.functions.get? id = none
  follows : Follows (opening.later body.length machine) (opening.later (body.length + 1) after)
  defined : after.functions.get? id = some body

end Opening

/-- Somewhere in the run of the request, the function is defined with this body. -/
def Request.Defines (request : Request) (start : Machine) (id : UInt32) (body : Program) : Prop :=
  ∃ (opening : Opening) (machine after : Machine),
    opening.Completes request start id body machine after

theorem Opening.getElem?_program (opening : Opening) (length : Nat) :
    opening.program[opening.before.length + 1 + length]? = opening.behind[length]? := by
  rw [program, Nat.add_assoc, List.getElem?_append_right (Nat.le_add_right _ _),
    Nat.add_sub_cancel_left, Nat.add_comm 1 length, List.getElem?_cons_succ]

theorem Opening.Records.behind_of_fetched {request : Request} {start machine : Machine}
    {opening : Opening} {id : UInt32} {body : Program} {instruction : Instruction}
    (records : opening.Records request start id body machine)
    (fetched : opening.program[opening.before.length + 1 + body.length]? = some instruction) :
    ∃ rest, opening.behind = body ++ instruction :: rest := by
  rcases records.behind with ⟨rest, behind⟩
  rw [opening.getElem?_program, behind, List.getElem?_append_right (Nat.le_refl _),
    Nat.sub_self] at fetched
  cases rest with
  | nil => cases fetched
  | cons next rest =>
      cases fetched
      exact ⟨rest, behind⟩

/-! ## What runs leave behind -/

/-- Every function was there before the run, or is defined in it. -/
def Accounted (request : Request) (start : Machine) (functions : FunctionTable) : Prop :=
  ∀ id body, functions.get? id = some body →
    start.functions.get? id = some body ∨ request.Defines start id body

structure Documented (request : Request) (start : Machine) (active : Activation)
    (callers : List Caller) (machine : Machine) : Prop where
  reached : Reaches (request.begin start) (.running active callers machine)
  accounted : Accounted request start machine.functions
  capture : machine.capture = none ∨
    ∃ (opening : Opening) (id : UInt32) (body : Program),
      opening.Records request start id body machine ∧
        .running active callers machine = opening.later body.length machine

def Progress.Documented (request : Request) (start : Machine) : Progress → Prop
  | running active callers machine => Machine.Documented request start active callers machine
  | ended outcome => Accounted request start (Outcome.machine outcome).functions

section

variable {request : Request} {start machine after : Machine} {active : Activation}
  {callers : List Caller}

theorem Accounted.definesNothing {functions : FunctionTable} (rest : start.AtRest)
    (accounted : Accounted request start functions) {id : UInt32} {body : Program}
    (found : functions.get? id = some body) : body.DefinesNothing := by
  rcases accounted id body found with known | ⟨opening, machine, after, completes⟩
  · exact rest.bodies id body known
  · exact completes.definesNothing

theorem Accounted.define {functions : FunctionTable} {id : UInt32} {body : Program}
    (accounted : Accounted request start functions)
    (defines : functions.get? id = none → request.Defines start id body) :
    Accounted request start (functions.define id body) := by
  intro other held found
  by_cases same : id = other
  · subst same
    rw [FunctionTable.get?_define_same] at found
    cases known : functions.get? id with
    | some old =>
        rw [known] at found
        cases found
        exact accounted id _ known
    | none =>
        rw [known] at found
        cases found
        exact .inr (defines known)
  · rw [FunctionTable.get?_define_other functions body same] at found
    exact accounted other held found

theorem exists_append_of_fetched {program : Program} {index : Nat} {instruction : Instruction}
    (fetched : program[index]? = some instruction) :
    ∃ before behind, program = before ++ instruction :: behind ∧ before.length = index := by
  rcases List.getElem?_eq_some_iff.mp fetched with ⟨inside, rfl⟩
  refine ⟨program.take index, program.drop (index + 1), ?_,
    List.length_take_of_le (Nat.le_of_lt inside)⟩
  rw [← List.drop_eq_getElem_cons inside, List.take_append_drop]

namespace Documented

variable (documented : Documented request start active callers machine)

include documented

theorem closedBody (body : active.purpose.isFunction = true) : machine.capture = none := by
  rcases documented.capture with closed | ⟨opening, id, recorded, records, same⟩
  · exact closed
  · cases same
    exact absurd (body.symm.trans records.outermost) Bool.noConfusion

theorem opens (rest : start.AtRest) (sourced : AllSourced request active callers machine)
    {top : Value} {below : List Value} {id : UInt32}
    (fetched : active.program[active.index]? = some (.control .beginFunction))
    (closed : machine.capture = none) (held : machine.memory.stack.values = top :: below)
    (index : top.toIndex .function = .ok id) (opened : after.capture = some { id })
    (functions : after.functions = machine.functions)
    (follows : Follows (.running active callers machine)
      (.running { active with index := active.index + 1 } callers after)) :
    Documented request start { active with index := active.index + 1 } callers after := by
  -- The bodies of functions hold no FDEF.
  have outermost : active.purpose.isFunction = false := by
    have member := List.mem_of_getElem? fetched
    have fromTable := sourced.active
    generalize active.purpose = purpose at fromTable ⊢
    cases fromTable with
    | function more defined =>
        exact absurd (documented.accounted.definesNothing rest defined _ member) Bool.noConfusion
    | _ => rfl
  rcases active with ⟨purpose, program, _⟩
  rcases exists_append_of_fetched fetched with ⟨before, behind, rfl, rfl⟩
  have reached := documented.reached.tail follows
  refine ⟨reached, by rw [functions]; exact documented.accounted, .inr ?_⟩
  exact ⟨⟨purpose, before, behind, callers, machine⟩, id, [],
    { reached := documented.reached
      outermost := outermost
      sourced := sourced.active
      closed := closed
      named := ⟨top, below, held, index⟩
      behind := ⟨behind, rfl⟩
      definesNothing := List.forall_mem_nil _
      recorded := .single follows
      capture := opened
      functions := functions }, rfl⟩

theorem records {instruction : Instruction} {capture : Capture}
    (fetched : active.program[active.index]? = some instruction)
    (opened : machine.capture = some capture) (plain : instruction.delimitsFunction = false)
    (recorded : after.capture = some { capture with recorded := instruction :: capture.recorded })
    (functions : after.functions = machine.functions)
    (follows : Follows (.running active callers machine)
      (.running { active with index := active.index + 1 } callers after)) :
    Documented request start { active with index := active.index + 1 } callers after := by
  rcases documented.capture with closed | ⟨opening, id, body, records, same⟩
  · cases closed.symm.trans opened
  · cases same
    cases records.capture.symm.trans opened
    rcases records.behind_of_fetched fetched with ⟨rest, behind⟩
    have later : opening.later (body ++ [instruction]).length after =
        opening.later (body.length + 1) after := by
      rw [List.length_append, List.length_singleton]
    refine ⟨documented.reached.tail follows, by rw [functions]; exact documented.accounted,
      .inr ⟨opening, id, body ++ [instruction], ?_, later.symm⟩⟩
    exact
      { records.toExecutes with
        behind := ⟨rest, by rw [behind, List.append_assoc]; rfl⟩
        definesNothing := List.forall_mem_append.mpr
          ⟨records.definesNothing, List.forall_mem_singleton.mpr plain⟩
        recorded := by
          rw [later]
          exact records.recorded.tail follows
        capture := by
          rw [recorded, List.reverse_append]
          rfl
        functions := functions.trans records.functions }

theorem closes {capture : Capture}
    (fetched : active.program[active.index]? = some (.control .endFunction))
    (opened : machine.capture = some capture) (closed : after.capture = none)
    (functions : after.functions =
      machine.functions.define capture.id capture.recorded.reverse)
    (follows : Follows (.running active callers machine)
      (.running { active with index := active.index + 1 } callers after)) :
    Documented request start { active with index := active.index + 1 } callers after := by
  rcases documented.capture with closed | ⟨opening, id, body, records, same⟩
  · cases closed.symm.trans opened
  · cases same
    cases records.capture.symm.trans opened
    rw [List.reverse_reverse] at functions
    refine ⟨documented.reached.tail follows, ?_, .inl closed⟩
    rw [functions]
    refine documented.accounted.define fun unknown => ⟨opening, machine, after, ?_⟩
    exact
      { records with
        ended := records.behind_of_fetched fetched
        unknown := unknown
        follows := follows
        defined := by rw [functions, FunctionTable.get?_define_same, unknown, Option.getD_none] }

theorem advance (rest : start.AtRest) (sourced : AllSourced request active callers machine) :
    (advance active callers machine).Documented request start := by
  have step : Registers active callers machine (Machine.advance active callers machine) :=
    registers documented.closedBody
  have follows := Follows.advance active callers machine
  generalize Machine.advance active callers machine = next at step follows
  cases step with
  | ends outcome functions =>
      change Accounted request start _
      rw [functions]
      exact documented.accounted
  | stays other others after closed stillClosed functions =>
      refine ⟨documented.reached.tail follows, ?_, .inl stillClosed⟩
      rw [functions]
      exact documented.accounted
  | opens top below id after fetched closed held index opened functions =>
      exact documented.opens rest sourced fetched closed held index opened functions follows
  | records instruction capture after fetched opened plain recorded functions =>
      exact documented.records fetched opened plain recorded functions follows
  | closes capture after fetched opened closed functions =>
      exact documented.closes fetched opened closed functions follows

end Documented

theorem AtRest.documented_begin (rest : start.AtRest) (request : Request) :
    (request.begin start).Documented request start := by
  have prepares := request.prepares_enter start
  have known : Accounted request start (Outcome.machine (request.enter start)).functions := by
    intro id body found
    rw [prepares.functions] at found
    exact .inl found
  cases entered : request.enter start with
  | error failure after =>
      rw [entered] at known
      rw [Request.begin, entered]
      exact known
  | ok entry after =>
      rw [entered] at known prepares
      cases entry with
      | none =>
          rw [Request.begin, entered]
          exact known
      | some active =>
          have begins : request.begin start = .running active [] after := by
            rw [Request.begin, entered]
          have reached : Reaches (request.begin start) (.running active [] after) := by
            rw [begins]
            exact .refl
          rw [begins]
          exact ⟨reached, known, .inl (prepares.capture.trans rest.capture)⟩

theorem AtRest.documented (rest : start.AtRest) {state : Progress}
    (reaches : Reaches (request.begin start) state) : state.Documented request start := by
  have begun := rest.documented_begin request
  induction reaches with
  | refl => exact begun
  | tail reached follows induction =>
      have sourced := (request.allSourced_begin rest.keeps).of_reaches reached
      cases follows with
      | advance active callers machine => exact Documented.advance induction rest sourced

theorem AtRest.records_of_open (rest : start.AtRest) {capture : Capture}
    (reaches : Reaches (request.begin start) (.running active callers machine))
    (opened : machine.capture = some capture) :
    ∃ (opening : Opening) (body : Program),
      opening.Records request start capture.id body machine ∧
        capture.recorded = body.reverse ∧
        ∀ outcome, Follows (.running active callers machine) (.ended outcome) →
          (Outcome.machine outcome).functions = opening.machine.functions := by
  have documented : Documented request start active callers machine := rest.documented reaches
  rcases documented.capture with closed | ⟨opening, id, body, records, same⟩
  · cases closed.symm.trans opened
  · cases records.capture.symm.trans opened
    refine ⟨opening, body, records, rfl, fun outcome follows => ?_⟩
    have step : Registers active callers machine (.ended outcome) := by
      generalize Progress.ended outcome = next at follows ⊢
      cases follows
      exact registers documented.closedBody
    cases step with
    | ends _ functions => exact functions.trans records.functions

end

end Hinting.Machine
