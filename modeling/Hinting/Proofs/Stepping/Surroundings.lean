import Hinting.Proofs.Stepping.Instructions

/-!
What instructions do not see.

An instruction works on memory, functions, the open definition and the journal. It does the same
on machines that differ in anything else, and leaves that as it is.
-/

namespace Hinting.Machine

/-- Everything of a machine that instructions other than calls leave alone. -/
structure Surroundings where
  limits : Limits
  font : Option FontTables
  decodedFontProgram : Option Program
  fontProgramLoaded : Bool
  inFontProgram : Bool
  primed : Bool
  callDepth : Nat
  steps : Nat

def surroundings (machine : Machine) : Surroundings :=
  { machine with }

def inside (surroundings : Surroundings) (machine : Machine) : Machine :=
  { surroundings, machine with }

section

variable (surroundings : Surroundings) (machine : Machine)

theorem inside_memory : (inside surroundings machine).memory = machine.memory := rfl

theorem inside_functions : (inside surroundings machine).functions = machine.functions := rfl

theorem inside_capture : (inside surroundings machine).capture = machine.capture := rfl

end

def Outcome.onMachine (change : Machine → Machine) : Outcome α → Outcome α
  | .ok result machine => .ok result (change machine)
  | .error failure machine => .error failure (change machine)

/-- The action neither sees nor changes the surroundings. -/
def Oblivious (action : MachineAction α) : Prop :=
  ∀ surroundings machine,
    action (inside surroundings machine) = Outcome.onMachine (inside surroundings) (action machine)

namespace Oblivious

variable {action : MachineAction α}

theorem surroundings_eq (oblivious : Oblivious action) (machine : Machine) :
    (Outcome.machine (action machine)).surroundings = machine.surroundings := by
  have same : action machine = Outcome.onMachine (inside machine.surroundings) (action machine) :=
    oblivious machine.surroundings machine
  rw [same]
  cases action machine with
  | ok result after => rfl
  | error failure after => rfl

theorem pure (result : α) : Oblivious (pure result) := fun _ _ => rfl

theorem fault (cause : Fault) : Oblivious (fault cause : MachineAction α) := fun _ _ => rfl

theorem bind {next : α → MachineAction β} (first : Oblivious action)
    (rest : ∀ result, Oblivious (next result)) : Oblivious (action >>= next) := by
  intro surroundings machine
  rw [bind_apply, bind_apply, first surroundings machine]
  cases action machine with
  | ok result after => exact rest result surroundings after
  | error failure after => rfl

theorem within (context : Context) (oblivious : Oblivious action) :
    Oblivious (within context action) := by
  intro surroundings machine
  rw [Machine.within, Machine.within, oblivious surroundings machine]
  cases action machine with
  | ok result after => rfl
  | error failure after => rfl

theorem onMemory (action : MemoryAction α) : Oblivious (onMemory action) := by
  intro surroundings machine
  rw [Machine.onMemory, Machine.onMemory, inside_memory]
  cases action machine.memory with
  | ok result memory => rfl
  | error cause memory => rfl

theorem emit (event : Event) : Oblivious (emit event) := fun _ _ => rfl

/-! ## Recording -/

theorem endFunction (capture : Capture) : Oblivious (endFunction capture) := by
  intro surroundings machine
  rw [Machine.endFunction, get_bind_apply, get_bind_apply, inside_functions]
  split
  · rfl
  · rfl

theorem record (capture : Capture) (instruction : Instruction) :
    Oblivious (record capture instruction) := by
  unfold Machine.record
  split
  · exact endFunction capture
  · exact fault _
  · exact fun _ _ => rfl

/-! ## Instructions -/

theorem compositional : Compositional Oblivious where
  strayEnd := fun _ _ => rfl
  pure := pure
  unbalanced := fault _
  bind := bind
  onMemory _ := onMemory _

theorem carryOut (rest : Program) (instruction : Instruction) :
    Oblivious (carryOut rest instruction) :=
  compositional.carryOut rest instruction fun _ _ _ _ => rfl

theorem attempt (index : Nat) (instruction : Instruction) (rest : Program) :
    Oblivious (attempt index instruction rest) := by
  intro surroundings machine
  rw [Machine.attempt, get_bind_apply, get_bind_apply, inside_capture, inside_memory]
  cases machine.capture with
  | some capture =>
      exact ((record capture instruction).bind fun _ => pure _) surroundings machine
  | none =>
      exact ((emit _).bind fun _ => (carryOut rest instruction).within _) surroundings machine

end Oblivious

end Hinting.Machine
