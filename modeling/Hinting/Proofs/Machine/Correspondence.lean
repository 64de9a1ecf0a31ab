import Hinting.Proofs.Machine.Agreement
import Hinting.Proofs.Machine.FontProgram

/-!
Correspondences between two machines.

A correspondence is what two machines have in common while they run the same
programs. It names what has to be shown of single steps; that whole runs then
keep it is shown once for all correspondences.
-/

namespace Hinting

/-! ## Programs and instructions -/

def Instruction.delimitsFunction : Instruction → Bool
  | .control .beginFunction => true
  | .control .endFunction => true
  | _ => false

def Program.DefinesNothing (program : Program) : Prop :=
  ∀ instruction ∈ program, instruction.delimitsFunction = false

namespace Program

instance (program : Program) : Decidable program.DefinesNothing :=
  inferInstanceAs (Decidable (∀ instruction ∈ program, instruction.delimitsFunction = false))

theorem definesNothing_cons {instruction : Instruction} {rest : Program} :
    DefinesNothing (instruction :: rest) ↔
      instruction.delimitsFunction = false ∧ DefinesNothing rest :=
  List.forall_mem_cons

end Program

/-- What an instruction does to memory, if it does nothing else. -/
def Instruction.memoryAction? : Instruction → Option (MemoryAction Unit)
  | .push constants =>
      some (Memory.onStack (OperandStack.pushAll (constants.literals.map Value.ofInt32)))
  | .stack operation => some (Memory.onStack operation.apply)
  | .unary operation => some (Memory.onStack operation.apply)
  | .binary operation => some (Memory.onStack operation.apply)
  | .storage operation => some operation.apply
  | .control _ => none

namespace Machine

/-! ## Correspondences -/

/-- Where a program is run. -/
structure Place where
  /-- How many programs may be nested from here on, the program itself included. -/
  levels : Nat
  depth : Nat
  inFontProgram : Bool

/-- The action succeeds on both memories or fails in the same way on both. -/
def Keeps (related : Place → Machine → Machine → Prop) (excused : Fault → Prop)
    (action : MemoryAction α) : Prop :=
  ∀ place left right, related place left right →
    Agree excused 0 (related place) (onMemory action left) (onMemory action right)

/-- `related` only has to speak of limits, memory, depths and steps. The rest of
the two machines is the same, see `Holds`. -/
structure Correspondence where
  related : Place → Machine → Machine → Prop
  /-- The faults that end a run on the left alone. -/
  excused : Fault → Prop
  /-- The instructions that programs consist of. -/
  admits : Instruction → Prop
  /-- How many more programs may be nested on the right than on the left. -/
  spareLevels : Nat
  tick : related place left right →
    Agree excused offset (related place) (tick left) (tick right)
  data : admits instruction → instruction.memoryAction? = some action →
    Keeps related excused action
  require : Keeps related excused (Memory.onStack (OperandStack.require needed))
  peek : Keeps related excused (Memory.onStack (OperandStack.peek depth))
  pop : Keeps related excused (Memory.onStack OperandStack.pop)
  popTwo : Keeps related excused (Memory.onStack OperandStack.popTwo)
  journal : related place left right → ∀ leftJournal rightJournal,
    related place { left with journal := leftJournal } { right with journal := rightJournal }
  capture : related place left right → ∀ capture,
    related place { left with capture } { right with capture }
  define : related place left right → ∀ id body,
    related place
      { left with functions := left.functions.define id body }
      { right with functions := right.functions.define id body }
  startFontProgram : related ⟨levels + 1, depth, false⟩ left right → ∀ program,
    related ⟨levels, depth, true⟩ (left.startFontProgram program)
      (right.startFontProgram program)
  endFontProgram : related ⟨levels, depth, true⟩ left right →
    related ⟨levels + 1, depth, false⟩
      { left with inFontProgram := false } { right with inFontProgram := false }
  /-- A call that is refused on the left is excused or refused on the right. -/
  refuse : related ⟨levels + 1, depth, inside⟩ left right →
    left.limits.maxCallDepth ≤ left.callDepth →
      excused (.callDepthExceeded left.limits.maxCallDepth) ∨
        right.limits.maxCallDepth ≤ right.callDepth ∧
          left.limits.maxCallDepth = right.limits.maxCallDepth
  enter : related ⟨levels + 1, depth, inside⟩ left right →
    left.callDepth < left.limits.maxCallDepth →
      right.callDepth < right.limits.maxCallDepth ∧
        related ⟨levels, depth + 1, inside⟩
          { left with callDepth := left.callDepth + 1 }
          { right with callDepth := right.callDepth + 1 }
  leave : related ⟨levels, depth + 1, inside⟩ left right →
    related ⟨levels + 1, depth, inside⟩
      { left with callDepth := left.callDepth - 1 }
      { right with callDepth := right.callDepth - 1 }
  /-- Without room for a program on the left there is none on the right, unless
  that is excused. -/
  floor : related ⟨0, depth, inside⟩ left right →
    excused (.callDepthExceeded left.limits.maxCallDepth) ∨
      spareLevels = 0 ∧ left.limits.maxCallDepth = right.limits.maxCallDepth

namespace Correspondence

section

variable (correspondence : Correspondence)

/-- The instructions of a function body or of an open definition. -/
def AdmitsBody (body : Program) : Prop :=
  body.DefinesNothing ∧ ∀ instruction ∈ body, correspondence.admits instruction

/-- A program that may be run. Only with `definitions` it may delimit functions. -/
def AdmitsProgram (definitions : Bool) (program : Program) : Prop :=
  (definitions = false → program.DefinesNothing) ∧
    ∀ instruction ∈ program, correspondence.admits instruction

/-- The two machines correspond between two instructions. Without `definitions`
no definition is open. -/
structure Holds (definitions : Bool) (place : Place) (left right : Machine) : Prop where
  related : correspondence.related place left right
  font : left.font = right.font
  functions : left.functions = right.functions
  capture : left.capture = right.capture
  decodedFontProgram : left.decodedFontProgram = right.decodedFontProgram
  fontProgramLoaded : left.fontProgramLoaded = right.fontProgramLoaded
  primed : left.primed = right.primed
  leftInFontProgram : left.inFontProgram = place.inFontProgram
  rightInFontProgram : right.inFontProgram = place.inFontProgram
  closed : definitions = false → left.capture = none
  recorded : ∀ capture, left.capture = some capture →
    correspondence.AdmitsBody capture.recorded
  bodies : ∀ id body, left.functions.get? id = some body → correspondence.AdmitsBody body
  keeps : left.KeepsFontProgram
  fontProgram : ∀ bytes program,
    left.font.bind FontTables.fontProgram = some bytes → decode bytes = .ok program →
      correspondence.AdmitsProgram true program

/-- Calls keep the correspondence. They are made outside of definitions. -/
def CallsAgree (place : Place) (leftCall rightCall : UInt32 → Nat → MachineAction Unit) :
    Prop :=
  ∀ id count left right, correspondence.Holds false place left right →
    Agree correspondence.excused 0 (correspondence.Holds false place)
      (leftCall id count left) (rightCall id count right)

/-- Programs that are run with room for `levels` programs keep the correspondence. -/
def RunsAgree (levels : Nat) (leftRun rightRun : Program → MachineAction Unit) : Prop :=
  ∀ depth inside definitions program left right,
    correspondence.AdmitsProgram definitions program →
    correspondence.Holds definitions ⟨levels, depth, inside⟩ left right →
      Agree correspondence.excused 0 (correspondence.Holds definitions ⟨levels, depth, inside⟩)
        (leftRun program left) (rightRun program right)

end

section

variable {correspondence : Correspondence}

theorem AdmitsBody.program {body : Program} (admitted : correspondence.AdmitsBody body) :
    correspondence.AdmitsProgram definitions body :=
  ⟨fun _ => admitted.1, admitted.2⟩

theorem AdmitsBody.nil : correspondence.AdmitsBody [] :=
  ⟨fun _ member => (nomatch member), fun _ member => (nomatch member)⟩

theorem AdmitsBody.cons {instruction : Instruction} {body : Program}
    (delimits : instruction.delimitsFunction = false)
    (admits : correspondence.admits instruction)
    (admitted : correspondence.AdmitsBody body) :
    correspondence.AdmitsBody (instruction :: body) :=
  ⟨Program.definesNothing_cons.mpr ⟨delimits, admitted.1⟩,
    List.forall_mem_cons.mpr ⟨admits, admitted.2⟩⟩

theorem AdmitsBody.reverse {body : Program} (admitted : correspondence.AdmitsBody body) :
    correspondence.AdmitsBody body.reverse :=
  ⟨fun instruction member => admitted.1 instruction (List.mem_reverse.mp member),
    fun instruction member => admitted.2 instruction (List.mem_reverse.mp member)⟩

theorem AdmitsProgram.of_cons {instruction : Instruction} {rest : Program}
    (admitted : correspondence.AdmitsProgram definitions (instruction :: rest)) :
    correspondence.AdmitsProgram definitions rest :=
  ⟨fun none => (Program.definesNothing_cons.mp (admitted.1 none)).2,
    (List.forall_mem_cons.mp admitted.2).2⟩

end

end Correspondence

end Machine

end Hinting
