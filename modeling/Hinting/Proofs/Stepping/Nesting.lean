import Hinting.Proofs.Machine.Rest
import Hinting.Proofs.Stepping.Transition

/-!
How the programs of a run are nested.

The call depth of a machine is the number of active function bodies, and its font program flag tells
whether the font program is active. Both hold all along a run of a machine that was at rest.
-/

namespace Hinting.Machine

def purposes (active : Activation) (callers : List Caller) : List Purpose :=
  active.purpose :: callers.map fun caller => caller.purpose

def functionBodies (purposes : List Purpose) : Nat :=
  purposes.countP Purpose.isFunction

def fontPrograms (purposes : List Purpose) : Nat :=
  purposes.count .fontProgram

section

variable (id : UInt32) (more : Nat) (others : List Purpose)

@[simp] theorem functionBodies_function :
    functionBodies (.function id more :: others) = functionBodies others + 1 :=
  List.countP_cons_of_pos rfl

@[simp] theorem functionBodies_fontProgram :
    functionBodies (.fontProgram :: others) = functionBodies others :=
  List.countP_cons_of_neg Bool.false_ne_true

@[simp] theorem fontPrograms_function :
    fontPrograms (.function id more :: others) = fontPrograms others :=
  List.count_cons_of_ne Purpose.noConfusion

@[simp] theorem fontPrograms_fontProgram :
    fontPrograms (.fontProgram :: others) = fontPrograms others + 1 :=
  List.count_cons_self

end

/-- The program may be active for the call: it is the font program, which may define the function,
or the body of the function, which is not entered more often than the call asks for. -/
def Purpose.Serves (invocation : Invocation) : Purpose → Prop
  | fontProgram => True
  | function id more => id = invocation.id ∧ more ≤ invocation.count
  | _ => False

/-- Every program but the outermost one is active for the call that its caller waits for. -/
def Serving : Activation → List Caller → Prop
  | _, [] => True
  | active, caller :: callers =>
      active.purpose.Serves caller.invocation ∧ Serving caller.toActivation callers

structure Nested (limits : Limits) (active : Activation) (callers : List Caller)
    (machine : Machine) : Prop where
  sameLimits : machine.limits = limits
  callDepth : machine.callDepth = functionBodies (purposes active callers)
  bounded : machine.callDepth ≤ limits.maxCallDepth
  inFontProgram : machine.inFontProgram.toNat = fontPrograms (purposes active callers)
  inside : active.index ≤ active.program.length
  callersInside : ∀ caller ∈ callers, caller.index ≤ caller.program.length
  serving : Serving active callers

def Progress.Nested (limits : Limits) : Progress → Prop
  | running active callers machine => Machine.Nested limits active callers machine
  | ended _ => True

namespace Nested

variable {limits : Limits} {active : Activation} {callers : List Caller} {machine after : Machine}

theorem callersInside_cons {caller : Caller}
    (nested : Nested limits caller.toActivation callers machine) :
    ∀ other ∈ caller :: callers, other.index ≤ other.program.length := by
  intro other member
  rcases List.mem_cons.mp member with rfl | member
  · exact nested.inside
  · exact nested.callersInside other member

theorem of_same (nested : Nested limits active callers machine)
    (same : SameNesting machine after) : Nested limits active callers after :=
  { nested with
    sameLimits := same.limits.trans nested.sameLimits
    callDepth := same.callDepth.trans nested.callDepth
    bounded := Nat.le_trans (Nat.le_of_eq same.callDepth) nested.bounded
    inFontProgram := same.inFontProgram ▸ nested.inFontProgram }

theorem charged (nested : Nested limits active callers machine) (cost : Nat) :
    Nested limits active callers (machine.charged cost) :=
  { nested with }

theorem atIndex (nested : Nested limits active callers machine) {index : Nat}
    (inside : index ≤ active.program.length) :
    Nested limits { active with index } callers machine :=
  { nested with
    inside
    serving := by
      cases callers with
      | nil => trivial
      | cons caller callers => exact nested.serving }

theorem enterFunction {caller : Caller}
    (nested : Nested limits caller.toActivation callers machine) (body : Program)
    (room : machine.callDepth < machine.limits.maxCallDepth) :
    Nested limits ⟨.function caller.invocation.id caller.invocation.count, body, body.length⟩
      (caller :: callers) { machine with callDepth := machine.callDepth + 1 } where
  sameLimits := nested.sameLimits
  callDepth := (congrArg (· + 1) nested.callDepth).trans (functionBodies_function _ _ _).symm
  bounded := nested.sameLimits ▸ room
  inFontProgram := nested.inFontProgram.trans (fontPrograms_function _ _ _).symm
  inside := Nat.le_refl _
  callersInside := nested.callersInside_cons
  serving := ⟨⟨rfl, Nat.le_refl _⟩, nested.serving⟩

theorem enterFontProgram {caller : Caller}
    (nested : Nested limits caller.toActivation callers machine) (program : Program)
    (outside : machine.inFontProgram = false) :
    Nested limits ⟨.fontProgram, program, 0⟩ (caller :: callers)
      { machine with inFontProgram := true } where
  sameLimits := nested.sameLimits
  callDepth := nested.callDepth.trans (functionBodies_fontProgram _).symm
  bounded := nested.bounded
  inFontProgram := by
    have absent := nested.inFontProgram
    rw [outside] at absent
    exact (congrArg (· + 1) absent).trans (fontPrograms_fontProgram _).symm
  inside := Nat.zero_le _
  callersInside := nested.callersInside_cons
  serving := ⟨trivial, nested.serving⟩

theorem leaveFontProgram {caller : Caller}
    (nested : Nested limits active (caller :: callers) machine)
    (purpose : active.purpose = .fontProgram) :
    Nested limits caller.toActivation callers { machine with inFontProgram := false } where
  sameLimits := nested.sameLimits
  callDepth := by
    have depth := nested.callDepth
    rwa [purposes, purpose, functionBodies_fontProgram] at depth
  bounded := nested.bounded
  inFontProgram := by
    -- A flag counts to one, so that no caller is the font program.
    have present := nested.inFontProgram
    have once := Bool.toNat_le machine.inFontProgram
    rw [purposes, purpose, fontPrograms_fontProgram] at present
    have absent : fontPrograms (purposes caller.toActivation callers) = 0 :=
      show fontPrograms ((caller :: callers).map fun caller => caller.purpose) = 0 by omega
    rw [absent, Bool.toNat_false]
  inside := nested.callersInside caller List.mem_cons_self
  callersInside := fun other member => nested.callersInside other (List.mem_cons_of_mem _ member)
  serving := nested.serving.2

theorem reenterFunction {id : UInt32} {more : Nat} (nested : Nested limits active callers machine)
    (purpose : active.purpose = .function id (more + 1)) :
    Nested limits ⟨.function id more, active.program, 0⟩ callers machine :=
  { nested with
    callDepth := by
      have depth := nested.callDepth
      rw [purposes, purpose, functionBodies_function] at depth
      rw [depth, purposes, functionBodies_function]
    inFontProgram := by
      have absent := nested.inFontProgram
      rw [purposes, purpose, fontPrograms_function] at absent
      rw [absent, purposes, fontPrograms_function]
    inside := Nat.zero_le _
    serving := by
      cases callers with
      | nil => trivial
      | cons caller callers =>
          have serves := nested.serving.1
          rw [purpose] at serves
          exact ⟨⟨serves.1, Nat.le_of_succ_le serves.2⟩, nested.serving.2⟩ }

theorem leaveFunction {id : UInt32} {caller : Caller}
    (nested : Nested limits active (caller :: callers) machine)
    (purpose : active.purpose = .function id 0) :
    Nested limits caller.toActivation callers
      { machine with callDepth := machine.callDepth - 1 } where
  sameLimits := nested.sameLimits
  callDepth := by
    have depth := nested.callDepth
    rw [purposes, purpose, functionBodies_function] at depth
    exact congrArg (· - 1) depth
  bounded := Nat.le_trans (Nat.sub_le _ _) nested.bounded
  inFontProgram := by
    have absent := nested.inFontProgram
    rw [purposes, purpose, fontPrograms_function] at absent
    exact absent
  inside := nested.callersInside caller List.mem_cons_self
  callersInside := fun other member => nested.callersInside other (List.mem_cons_of_mem _ member)
  serving := nested.serving.2

theorem of_advances (nested : Nested limits active callers machine) {next : Progress}
    (step : Advances active callers machine next) : next.Nested limits := by
  cases step with
  | ends outcome limits steps => trivial
  | goesOn index after forward inside same => exact ((nested.charged _).atIndex inside).of_same same
  | calls site invocation body after inside room same =>
      have waiting : Nested limits (active.calling site invocation).toActivation callers
          (machine.charged active.cost) :=
        (nested.charged _).atIndex inside
      exact (waiting.enterFunction body room).of_same same
  | startsFontProgram site invocation program after inside outside closed same =>
      have waiting : Nested limits (active.calling site invocation).toActivation callers
          (machine.charged active.cost) :=
        (nested.charged _).atIndex inside
      exact (waiting.enterFontProgram program outside).of_same same
  | leavesFontProgram caller others body after purpose waiting room same =>
      subst waiting
      exact (((nested.charged _).leaveFontProgram purpose).enterFunction body room).of_same same
  | repeats id more after purpose same =>
      exact ((nested.charged _).reenterFunction purpose).of_same same
  | returns id caller others after purpose waiting same =>
      subst waiting
      exact ((nested.charged _).leaveFunction purpose).of_same same

end Nested

theorem Progress.Nested.of_reaches {limits : Limits} {first last : Progress}
    (nested : first.Nested limits) (reaches : Reaches first last) : last.Nested limits :=
  reaches.lasts (fun active callers machine now =>
    Machine.Nested.of_advances now (advances active callers machine)) nested

theorem Nested.of_reaches {limits : Limits} {active other : Activation}
    {callers others : List Caller} {machine after : Machine}
    (nested : Nested limits active callers machine)
    (reaches : Reaches (.running active callers machine) (.running other others after)) :
    Nested limits other others after :=
  have first : (Progress.running active callers machine).Nested limits := nested
  first.of_reaches reaches

end Hinting.Machine
