import Hinting.Proofs.Machine.FontProgram
import Mathlib.Logic.Function.Iterate
import Mathlib.Logic.Relation

/-!
Runs in small steps.

A state of a run lists the programs that are active. A step fetches one instruction, or leaves a
program at its end. Nothing here bounds how many programs are active or how many steps are taken:
a state has a successor unless its run has ended.
-/

namespace Hinting.Machine

/-! ## States -/

structure Invocation where
  id : UInt32
  count : Nat
deriving DecidableEq

inductive Purpose
  | program
  | controlValueProgram
  | fontProgram
  /-- A function body that is entered `more` times again. -/
  | function (id : UInt32) (more : Nat)
deriving DecidableEq

def Purpose.isFunction : Purpose → Bool
  | function _ _ => true
  | _ => false

structure Activation where
  purpose : Purpose
  program : Program
  /-- The number of the instruction that is fetched next. -/
  index : Nat
deriving DecidableEq

/-- A program that waits for the end of a call. -/
structure Caller extends Activation where
  /-- The place of the call, for failures that come out of it. -/
  site : Context
  invocation : Invocation
deriving DecidableEq

def Activation.calling (active : Activation) (site : Context) (invocation : Invocation) :
    Caller :=
  { active with index := active.index + 1, site, invocation }

inductive Progress
  /-- The nearest caller comes first. -/
  | running (active : Activation) (callers : List Caller) (machine : Machine)
  | ended (outcome : Outcome Unit)

def Progress.machine : Progress → Machine
  | running _ _ machine => machine
  | ended outcome => outcome.machine

/-! ## Failures -/

namespace Purpose

/-- The failure of the program as it is seen from outside. -/
def around : Purpose → Failure → Failure
  | program, failure => failure
  | controlValueProgram, failure => failure.within .controlValueProgram
  | fontProgram, failure => failure.within .fontProgram
  | function id _, failure => failure.within (.function id)

def abandon : Purpose → Machine → Machine
  | program, machine | controlValueProgram, machine => { machine with capture := none }
  | fontProgram, machine => { machine with capture := none, inFontProgram := false }
  | function _ _, machine => { machine with callDepth := machine.callDepth - 1 }

end Purpose

def fail (purpose : Purpose) (callers : List Caller) (failure : Failure) (machine : Machine) :
    Outcome Unit :=
  match callers with
  | [] => .error (purpose.around failure) (purpose.abandon machine)
  | caller :: callers =>
      fail caller.purpose callers ((purpose.around failure).within caller.site)
        (purpose.abandon machine)

theorem holds_fail (holds : Machine → Prop)
    (lasts : ∀ purpose machine, holds machine → holds (Purpose.abandon purpose machine))
    (purpose : Purpose) (callers : List Caller) (failure : Failure) {machine : Machine}
    (now : holds machine) : holds (Outcome.machine (fail purpose callers failure machine)) := by
  induction callers generalizing purpose failure machine with
  | nil => exact lasts purpose machine now
  | cons caller callers induction => exact induction _ _ (lasts purpose machine now)

/-! ## Instructions -/

inductive Effect
  /-- The program goes on after passing over some more instructions. -/
  | goOn (pass : Nat)
  | call (invocation : Invocation)
deriving DecidableEq

/-- Carry out an instruction that `rest` follows, up to a call. -/
def carryOut (rest : Program) : Instruction → MachineAction Effect
  | .control .call => do
      let id ← functionId
      let _ ← onStack OperandStack.pop
      return .call ⟨id, 1⟩
  | .control .loopCall => do
      onStack (OperandStack.require 2)
      let id ← functionId
      let count := (← onStack (OperandStack.peek 1)).integerPart
      let _ ← onStack OperandStack.popTwo
      return if 0 < count then .call ⟨id, count.toInt.toNat⟩ else .goOn 0
  | instruction => do return .goOn (← execute (fun _ _ => pure ()) rest instruction)

def attempt (index : Nat) (instruction : Instruction) (rest : Program) :
    MachineAction Effect := do
  let machine ← get
  match machine.capture with
  | some capture => do
      record capture instruction
      return .goOn 0
  | none => do
      emit (.executing index instruction machine.memory.stack.size)
      within (.instruction instruction.mnemonic index) (carryOut rest instruction)

def fetch (index : Nat) (instruction : Instruction) (rest : Program) : MachineAction Effect := do
  tick
  attempt index instruction rest

/-! ## Calls -/

/-- Go to the end of a function body: whether it is entered again is decided there. -/
def enter (invocation : Invocation) (body : Program) : MachineAction Activation := do
  let machine ← get
  if machine.limits.maxCallDepth ≤ machine.callDepth then
    fault (.callDepthExceeded machine.limits.maxCallDepth)
  set { machine with callDepth := machine.callDepth + 1 }
  return ⟨.function invocation.id invocation.count, body, body.length⟩

def definedBody (id : UInt32) : MachineAction Program := do
  match (← get).functions.get? id with
  | some body => return body
  | none => fault (.unresolvedFunction id)

def enterDefined (invocation : Invocation) : MachineAction Activation := do
  enter invocation (← definedBody invocation.id)

def enterFontProgram : MachineAction (Option Activation) := do
  match ← decodeFontProgram with
  | none => return none
  | some program => do
      emit (.runningFontProgram program.length)
      modify fun machine => { machine with fontProgramLoaded := true, inFontProgram := true }
      return some ⟨.fontProgram, program, 0⟩

/-- Begin with the function body, or with the font program if that may define one. -/
def invoke (invocation : Invocation) : MachineAction Activation := do
  let machine ← get
  if (machine.functions.get? invocation.id).isSome || machine.inFontProgram then
    enterDefined invocation
  else
    emit (.resolving invocation.id)
    match ← enterFontProgram with
    | none => enterDefined invocation
    | some active => return active

def await (caller : Caller) (callers : List Caller) : Outcome Activation → Progress
  | .ok active machine => .running active (caller :: callers) machine
  | .error failure machine =>
      .ended (fail caller.purpose callers (failure.within caller.site) machine)

/-! ## Ends of programs -/

def finishBody (id : UInt32) (more : Nat) (body : Program) (callers : List Caller)
    (machine : Machine) : Progress :=
  match more with
  | more + 1 =>
      match tick machine with
      | .ok _ machine => .running ⟨.function id more, body, 0⟩ callers machine
      | .error failure machine => .ended (fail (.function id more) callers failure machine)
  | 0 =>
      let machine := { machine with callDepth := machine.callDepth - 1 }
      match callers with
      | [] => .ended (.ok () machine)
      | caller :: callers => .running caller.toActivation callers machine

def leaveFontProgram (machine : Machine) : Machine :=
  { machine with
    inFontProgram := false
    journal := .fontProgramDone machine.functions.size :: machine.journal }

/-- What follows a program that has not ended inside of a definition. A font program that was run
for a call is followed by the body of the function. -/
def succeed (purpose : Purpose) (callers : List Caller) (machine : Machine) : Progress :=
  match purpose, callers with
  | .fontProgram, caller :: callers =>
      await caller callers (enterDefined caller.invocation machine.leaveFontProgram)
  | .fontProgram, [] => .ended (.ok () machine.leaveFontProgram)
  | _, _ => .ended (.ok () machine)

def finishWhole (purpose : Purpose) (callers : List Caller) (machine : Machine) : Progress :=
  match machine.capture with
  | some capture =>
      .ended (fail purpose callers { cause := .unterminatedFunction capture.id } machine)
  | none => succeed purpose callers machine

def finish (active : Activation) (callers : List Caller) (machine : Machine) : Progress :=
  match active.purpose with
  | .function id more => finishBody id more active.program callers machine
  | purpose => finishWhole purpose callers machine

/-! ## Steps -/

def proceed (active : Activation) (callers : List Caller) (site : Context) :
    Outcome Effect → Progress
  | .ok (.goOn pass) machine =>
      .running { active with index := active.index + 1 + pass } callers machine
  | .ok (.call invocation) machine =>
      await (active.calling site invocation) callers (invoke invocation machine)
  | .error failure machine => .ended (fail active.purpose callers failure machine)

def advance (active : Activation) (callers : List Caller) (machine : Machine) : Progress :=
  match active.program[active.index]? with
  | some instruction =>
      proceed active callers (.instruction instruction.mnemonic active.index)
        (fetch active.index instruction (active.program.drop (active.index + 1)) machine)
  | none => finish active callers machine

inductive Follows : Progress → Progress → Prop
  | advance (active : Activation) (callers : List Caller) (machine : Machine) :
      Follows (.running active callers machine) (advance active callers machine)

def Reaches : Progress → Progress → Prop := Relation.ReflTransGen Follows

namespace Progress

/-- The state after a step. A run that has ended stays where it is. -/
def next : Progress → Progress
  | running active callers machine => advance active callers machine
  | ended outcome => ended outcome

def levels? : Progress → Option (Activation × List Caller)
  | running active callers _ => some (active, callers)
  | ended _ => none

theorem reaches_next (steps : Nat) (state : Progress) : Reaches state (next^[steps] state) := by
  induction steps generalizing state with
  | zero => exact .refl
  | succ steps induction =>
      cases state with
      | ended outcome => exact induction _
      | running active callers machine =>
          exact .head (.advance active callers machine) (induction _)

theorem eq_running_of_levels? {state : Progress} {active : Activation} {callers : List Caller}
    (levels : state.levels? = some (active, callers)) :
    state = running active callers state.machine := by
  cases state with
  | ended outcome => cases levels
  | running other others machine =>
      cases levels
      rfl

end Progress

theorem Reaches.lasts {holds : Progress → Prop} {first last : Progress}
    (reaches : Reaches first last)
    (step : ∀ active callers machine, holds (.running active callers machine) →
      holds (advance active callers machine))
    (begun : holds first) : holds last := by
  induction reaches with
  | refl => exact begun
  | tail _ follows induction =>
      cases follows with
      | advance active callers machine => exact step active callers machine induction

theorem Reaches.exists_last {active : Activation} {callers : List Caller} {machine : Machine}
    {outcome : Outcome Unit}
    (reaches : Reaches (.running active callers machine) (.ended outcome)) :
    ∃ level others last, Reaches (.running active callers machine) (.running level others last) ∧
      advance level others last = .ended outcome := by
  rcases Relation.ReflTransGen.cases_tail reaches with impossible | ⟨state, before, follows⟩
  · cases impossible
  · generalize ended : Progress.ended outcome = next at follows
    cases follows with
    | advance level others last => exact ⟨level, others, last, before, rfl⟩

/-! ## Requests -/

inductive Request
  | executeProgram (program : Program)
  | executeBytes (bytes : List UInt8)
  | prime
  | loadFontProgram
deriving DecidableEq

namespace Request

def perform : Request → MachineAction Unit
  | executeProgram program => Machine.executeProgram program
  | executeBytes bytes => Machine.executeBytes bytes
  | prime => Machine.prime
  | loadFontProgram => Machine.loadFontProgram

def enter : Request → MachineAction (Option Activation)
  | executeProgram program => do
      resetSteps
      return some ⟨.program, program, 0⟩
  | executeBytes bytes =>
      match decode bytes with
      | .ok program => do
          resetSteps
          return some ⟨.program, program, 0⟩
      | .error malformation => fault (.malformedProgram malformation)
  | prime => do
      let machine ← get
      if machine.primed then return none
      set { machine with primed := true }
      match machine.font with
      | none => return none
      | some font =>
          match font.controlValueProgram with
          | none => do
              emit .noControlValueProgram
              return none
          | some bytes => do
              let program ← decodeTable .controlValueProgramDecoding bytes
              emit (.runningControlValueProgram program.length)
              resetSteps
              return some ⟨.controlValueProgram, program, 0⟩
  | loadFontProgram => do
      if (← get).fontProgramLoaded then return none
      resetSteps
      enterFontProgram

def begin (request : Request) (machine : Machine) : Progress :=
  match request.enter machine with
  | .ok (some active) machine => .running active [] machine
  | .ok none machine => .ended (.ok () machine)
  | .error failure machine => .ended (.error failure machine)

end Request

end Hinting.Machine
