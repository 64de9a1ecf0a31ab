import Hinting.Proofs.Memory.Invariant
import Hinting.Proofs.Stepping.Lasting
import Hinting.Proofs.Stepping.Requests

/-!
What lasts.

Nothing that a run does changes the limits or the font of its machine, or takes a function away.
What is kept of the font program stays what the font stands for. The invariants of memory last as
well. Actions first, then steps, then runs.
-/

namespace Hinting

def FunctionTable.Grows (before after : FunctionTable) : Prop :=
  ∀ id body, before.get? id = some body → after.get? id = some body

namespace FunctionTable.Grows

variable {before middle after : FunctionTable}

theorem refl (table : FunctionTable) : Grows table table :=
  fun _ _ found => found

theorem define (grows : Grows before after) (id : UInt32) (body : Program) :
    Grows before (after.define id body) := by
  intro other held found
  have known := grows other held found
  by_cases same : id = other
  · subst same
    rw [get?_define_same, known, Option.getD_some]
  · rw [get?_define_other after body same, known]

end FunctionTable.Grows

theorem Memory.Maintained.part {invariant : Memory → Prop} (maintained : Maintained invariant)
    {action : MemoryAction α} (part : Instruction.MemoryPart action) :
    Maintains invariant action := by
  cases part with
  | require needed => exact maintained.require needed
  | peek depth => exact maintained.peek depth
  | pop => exact maintained.pop
  | popTwo => exact maintained.popTwo
  | toIndex value kind => exact .ofExcept _
  | data named => exact maintained.instruction named

namespace Machine

/-- The second machine is a later one. Its memory has the invariant. -/
structure Retains (invariant : Memory → Prop) (before after : Machine) : Prop where
  limits : after.limits = before.limits
  font : after.font = before.font
  memory : invariant after.memory
  functions : before.functions.Grows after.functions
  keeps : before.KeepsFontProgram → after.KeepsFontProgram

theorem Retains.refl {invariant : Memory → Prop} {machine : Machine}
    (holds : invariant machine.memory) : Retains invariant machine machine :=
  ⟨rfl, rfl, holds, .refl _, id⟩

namespace Retains

variable {invariant : Memory → Prop} {first : Machine}

/-! ## Actions -/

theorem within {action : MachineAction α} {context : Context}
    (maintains : Maintains (Retains invariant first) action) :
    Maintains (Retains invariant first) (within context action) := by
  intro machine retains
  have after := maintains machine retains
  rw [Machine.within]
  cases ends : action machine with
  | ok result left =>
      rw [ends] at after
      exact after
  | error failure left =>
      rw [ends] at after
      exact after

theorem onMemory {action : MemoryAction α} (maintains : Maintains invariant action) :
    Maintains (Retains invariant first) (onMemory action) := by
  intro machine retains
  have after := maintains machine.memory retains.memory
  rw [Machine.onMemory]
  cases ends : action machine.memory with
  | ok result memory =>
      rw [ends] at after
      exact { retains with memory := after }
  | error cause memory =>
      rw [ends] at after
      exact { retains with memory := after }

theorem emit (event : Event) : Maintains (Retains invariant first) (emit event) :=
  .modify fun _ retains => { retains with }

theorem tick : Maintains (Retains invariant first) tick := by
  intro machine retains
  rw [tick_apply]
  split
  · split <;> exact { retains with }
  · exact { retains with }

theorem endFunction (capture : Capture) :
    Maintains (Retains invariant first) (endFunction capture) := by
  intro machine retains
  rw [Machine.endFunction, get_bind_apply]
  split
  · exact { retains with }
  · exact { retains with functions := retains.functions.define _ _ }

theorem record (capture : Capture) (instruction : Instruction) :
    Maintains (Retains invariant first) (record capture instruction) := by
  unfold Machine.record
  split
  · exact endFunction capture
  · exact .throw _
  · exact .modify fun _ retains => { retains with }

/-! ## Instructions -/

section

variable (maintained : Memory.Maintained invariant)

include maintained

theorem compositional :
    Compositional fun action => Maintains (Retains invariant first) action where
  strayEnd := Maintains.get.bind fun _ => .throw _
  pure := .pure
  unbalanced := .throw _
  bind := .bind
  onMemory part := onMemory (maintained.part part)

theorem carryOut (rest : Program) (instruction : Instruction) :
    Maintains (Retains invariant first) (carryOut rest instruction) :=
  (compositional maintained).carryOut rest instruction fun _ _ =>
    .modify fun _ retains => { retains with }

theorem attempt (index : Nat) (instruction : Instruction) (rest : Program) :
    Maintains (Retains invariant first) (attempt index instruction rest) := by
  refine Maintains.get.bind fun machine => ?_
  split
  · exact (record _ instruction).bind fun _ => .pure _
  · exact (emit _).bind fun _ => within (carryOut maintained rest instruction)

theorem fetch (index : Nat) (instruction : Instruction) (rest : Program) :
    Maintains (Retains invariant first) (fetch index instruction rest) :=
  tick.bind fun _ => attempt maintained index instruction rest

end

/-! ## Steps -/

theorem ignoresNesting : IgnoresNesting (Retains invariant first) where
  nesting _ _ _ _ retains := { retains with }
  load found retains := { retains with keeps := fun keeps => (retains.keeps keeps).load found }

theorem lasting (maintained : Memory.Maintained invariant) :
    Lasting (Retains invariant first) where
  tick := tick
  fetch := fetch maintained
  enterDefined := ignoresNesting.enterDefined
  invoke := ignoresNesting.invoke
  leave _ _ _ _ _ retains := { retains with }

theorem advance (maintained : Memory.Maintained invariant) {active : Activation}
    {callers : List Caller} {machine : Machine} (retains : Retains invariant first machine) :
    Retains invariant first (advance active callers machine).machine :=
  (lasting maintained).advance retains

theorem of_reaches (maintained : Memory.Maintained invariant) {earlier later : Progress}
    (retains : Retains invariant first earlier.machine) (reaches : Reaches earlier later) :
    Retains invariant first later.machine :=
  (lasting maintained).of_reaches retains reaches

theorem prepare {machine after : Machine} (retains : Retains invariant first machine)
    (prepares : Prepares machine after) : Retains invariant first after where
  limits := prepares.limits.trans retains.limits
  font := prepares.font.trans retains.font
  memory := by
    rw [prepares.memory]
    exact retains.memory
  functions := by
    rw [prepares.functions]
    exact retains.functions
  keeps := prepares.keeps ∘ retains.keeps

theorem begin {machine : Machine} (retains : Retains invariant first machine) (request : Request) :
    Retains invariant first (request.begin machine).machine := by
  rw [machine_begin]
  exact retains.prepare (request.prepares_enter machine)

end Retains

end Machine

end Hinting
