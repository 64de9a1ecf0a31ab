import Hinting.Proofs.Program.Sequence

/-!
Conditionals select one of their branches.

A balanced branch runs as it would on its own. The marker behind it leads to the
end of the conditional.
-/

namespace Hinting.Machine

open Correspondence

/-! ## Markers as instructions -/

/-- The instruction takes a step and passes over `pass` more instructions. That
leads to the state of `after`. -/
def MovesOn (call : UInt32 → Nat → MachineAction Unit) (index : Nat)
    (instruction : Instruction) (rest : Program) (pass : Nat) (machine after : Machine) :
    Prop :=
  ∃ moved, step call index instruction rest machine = .ok pass moved ∧
    SameState moved after ∧ moved.steps = machine.steps + 1

section

variable {call : UInt32 → Nat → MachineAction Unit} {machine popped : Machine}
  {condition : Value} {distance : Nat} {rest : Program}

theorem movesOn_endIf (unlimited : machine.limits.maxSteps = none)
    (closed : machine.capture = none) (index : Nat) (rest : Program) :
    MovesOn call index (.control .endIf) rest 0 machine machine := by
  refine ⟨_, ?_, .fetched index (.control .endIf) machine, rfl⟩
  rw [step_unlimited unlimited closed]
  rfl

theorem movesOn_beginElse (unlimited : machine.limits.maxSteps = none)
    (closed : machine.capture = none) (index : Nat)
    (found : distanceToMarker? false 0 rest = some distance) :
    MovesOn call index (.control .beginElse) rest distance machine machine := by
  refine ⟨_, ?_, .fetched index (.control .beginElse) machine, rfl⟩
  rw [step_unlimited unlimited closed]
  apply within_apply_of_ok _
  change skipBranch false rest _ = _
  rw [skipBranch, found]
  rfl

theorem movesOn_beginIf (pops : onStack OperandStack.pop machine = .ok condition popped)
    (unlimited : machine.limits.maxSteps = none) (closed : machine.capture = none)
    (index : Nat) (found : distanceToMarker? true 0 rest = some distance) :
    MovesOn call index (.control .beginIf) rest (if condition.raw = 0 then distance else 0)
      machine popped := by
  have same := (SameState.fetched index (.control .beginIf) machine).onMemory pops
  refine ⟨_, ?_, same.2, rfl⟩
  rw [step_unlimited unlimited closed]
  apply within_apply_of_ok _
  refine (bind_apply_of_ok same.1).trans ?_
  rw [Value.isTrue, skipBranch, found]
  by_cases zero : condition.raw = 0
  · rw [if_pos zero, zero]
    rfl
  · rw [if_neg zero, if_pos (bne_iff_ne.mpr zero)]
    rfl

end

/-! ## Branches -/

namespace Correspondence

variable {limits : Limits} {more : Nat} {left right : Machine}

theorem Holds.runLast
    (holds : (shift limits 0 more).Holds false ⟨limits.maxCallDepth + 2, 0, false⟩ left right)
    {leftIndex rightIndex : Nat} (later : rightIndex ≤ leftIndex) (last : Program) :
    EndsAlike (fun _ => False) (SlowerBy more) SameState
      (Machine.runFrom (outermostCall limits) leftIndex 0 last left)
      (Machine.runFrom (outermostCall limits) rightIndex 0 last right) := by
  rcases Nat.exists_eq_add_of_le later with ⟨offset, rfl⟩
  have ran := holds.weaken.runOutermost rightIndex offset last (shift_admitsProgram _ _ _ last)
  exact ran.endsAlike (shift_strict _ _)
    (fun _ _ _ ended => ⟨ended.sameState, ended.related.steps⟩) fun _ _ ended => ended.sameState

/-- A branch in front of a marker that leads to its end runs like a branch without
the marker, one step slower. -/
theorem Holds.runBranch (unlimited : limits.maxSteps = none)
    (holds : (shift limits 0 more).Holds false ⟨limits.maxCallDepth + 2, 0, false⟩ left right)
    {branch : Program} (finds : branch.FindsMarkers) (definesNothing : branch.DefinesNothing)
    {marker : Instruction} {rest later : Program} {pass : Nat}
    (moves : ∀ index machine, machine.limits.maxSteps = none → machine.capture = none →
      MovesOn (outermostCall limits) index marker rest pass machine machine)
    (lands : ∀ index, Machine.runFrom (outermostCall limits) index pass rest =
      Machine.runFrom (outermostCall limits) (index + pass) 0 later)
    (index : Nat) :
    EndsAlike (fun _ => False) (SlowerBy (more + 1)) SameState
      (Machine.runFrom (outermostCall limits) index 0 (branch ++ marker :: rest) left)
      (Machine.runFrom (outermostCall limits) 0 0 (branch ++ later) right) := by
  rw [runFrom_append_of_findsMarkers index finds, runFrom_append_of_findsMarkers 0 finds]
  have ran := holds.runOutermost 0 index branch ⟨fun _ => definesNothing, fun _ _ => trivial⟩
  rw [Nat.zero_add] at ran
  have branches : EndsAlike (fun _ => False)
      (fun _ _ => (shift limits 0 more).Holds false ⟨limits.maxCallDepth + 2, 0, false⟩)
      SameState (Machine.runFrom (outermostCall limits) index 0 branch left)
      (Machine.runFrom (outermostCall limits) 0 0 branch right) :=
    ran.endsAlike (shift_strict _ _) (fun _ _ _ kept => kept)
      fun _ _ kept => kept.sameState
  apply branches.bind
  intro _ _ leftMiddle rightMiddle kept
  have unlimitedMiddle : leftMiddle.limits.maxSteps = none := by
    rw [kept.related.leftLimits, unlimited]
  rcases moves (index + branch.length) leftMiddle unlimitedMiddle (kept.closed rfl) with
    ⟨moved, stepped, same, steps⟩
  have movedSteps : moved.steps = rightMiddle.steps + (more + 1) := by
    rw [steps, kept.related.steps, Nat.add_assoc]
  rw [Machine.runFrom, bind_apply_of_ok stepped, lands]
  exact (kept.of_sameState same movedSteps (.inr unlimited)).runLast (by omega) later

end Correspondence

/-! ## Conditionals -/

theorem AtRest.executeProgram_beginIf {machine popped : Machine} {condition : Value}
    (rest : machine.AtRest) (unlimited : machine.limits.maxSteps = none)
    (pops : onStack OperandStack.pop machine = .ok condition popped)
    {behind selected : Program} {distance extra : Nat}
    (found : distanceToMarker? true 0 behind = some distance)
    (continues : ∀ moved,
      (shift popped.limits 0 1).Holds false ⟨popped.limits.maxCallDepth + 2, 0, false⟩ moved
        { popped with steps := 0 } →
      EndsAlike (fun _ => False) (SlowerBy extra) SameState
        (runFrom (outermostCall popped.limits) 1 (if condition.raw = 0 then distance else 0)
          behind moved)
        (runFrom (outermostCall popped.limits) 0 0 selected { popped with steps := 0 })) :
    EndsAlike (fun _ => False) (SlowerBy extra) SameState
      (executeProgram (.control .beginIf :: behind) machine)
      (executeProgram selected popped) := by
  have same : SameState { machine with steps := 0 } machine := { SameState.refl machine with }
  rcases same.onMemory pops with ⟨popsBegun, samePopped⟩
  have limits : machine.limits = popped.limits := samePopped.limits
  have poppedRest : popped.AtRest := rest.of_onMemory pops
  have unlimitedPopped : popped.limits.maxSteps = none := by rw [← limits, unlimited]
  have begins : MovesOn (outermostCall machine.limits) 0 (.control .beginIf) behind
      (if condition.raw = 0 then distance else 0) { machine with steps := 0 }
      { machine with steps := 0, memory := popped.memory } :=
    movesOn_beginIf popsBegun unlimited rest.capture 0 found
  rcases begins with ⟨moved, stepped, sameMoved, steps⟩
  have holds : (shift popped.limits 0 1).Holds false
      ⟨popped.limits.maxCallDepth + 2, 0, false⟩ moved { popped with steps := 0 } :=
    poppedRest.resetSteps.holds { sameMoved.trans samePopped with } steps
      (.inr unlimitedPopped) _
  rw [executeProgram_apply, executeProgram_apply]
  apply EndsAlike.runWhole
  rw [runFrom, bind_apply_of_ok stepped, limits]
  exact continues moved holds

/-- A conditional runs the branch that its condition selects and goes on behind its
EIF. -/
theorem AtRest.executeProgram_conditional {machine popped : Machine} {condition : Value}
    (rest : machine.AtRest) (unlimited : machine.limits.maxSteps = none)
    (pops : onStack OperandStack.pop machine = .ok condition popped)
    {taken other : Program} (takenBalanced : taken.Balanced false)
    (otherBalanced : other.Balanced false) (takenDefines : taken.DefinesNothing)
    (otherDefines : other.DefinesNothing) (later : Program) :
    EndsAlike (fun _ => False) (SlowerBy 2) SameState
      (executeProgram ([.control .beginIf] ++ taken ++ [.control .beginElse] ++ other ++
        [.control .endIf] ++ later) machine)
      (executeProgram ((if condition.raw = 0 then other else taken) ++ later) popped) ∧
    EndsAlike (fun _ => False) (SlowerBy (if condition.raw = 0 then 1 else 2)) SameState
      (executeProgram ([.control .beginIf] ++ taken ++ [.control .endIf] ++ later) machine)
      (executeProgram ((if condition.raw = 0 then [] else taken) ++ later) popped) := by
  have unlimitedPopped : popped.limits.maxSteps = none := by
    rw [← ((SameState.refl machine).onMemory pops).2.limits]
    exact unlimited
  have endIf : ∀ index machine, machine.limits.maxSteps = none → machine.capture = none →
      MovesOn (outermostCall popped.limits) index (.control .endIf) later 0 machine machine :=
    fun index _ unlimited closed => movesOn_endIf unlimited closed index later
  constructor
  · have toElse : distanceToMarker? true 0
        (taken ++ .control .beginElse :: (other ++ .control .endIf :: later)) =
          some (taken.length + 1) := takenBalanced.distanceToMarker?_marker rfl _
    simp only [List.append_assoc, List.cons_append, List.nil_append]
    refine rest.executeProgram_beginIf unlimited pops toElse fun moved holds => ?_
    by_cases zero : condition.raw = 0
    · rw [if_pos zero, if_pos zero, runFrom_behind]
      exact holds.runBranch unlimitedPopped otherBalanced.findsMarkers otherDefines endIf
        (fun _ => rfl) _
    · rw [if_neg zero, if_neg zero]
      exact holds.runBranch unlimitedPopped takenBalanced.findsMarkers takenDefines
        (fun index _ unlimited closed => movesOn_beginElse unlimited closed index
          (otherBalanced.distanceToMarker?_marker rfl later))
        (fun index => runFrom_behind index other _ later) _
  · have toEnd : distanceToMarker? true 0 (taken ++ .control .endIf :: later) =
        some (taken.length + 1) := takenBalanced.distanceToMarker?_marker rfl _
    simp only [List.append_assoc, List.cons_append, List.nil_append]
    refine rest.executeProgram_beginIf unlimited pops toEnd fun moved holds => ?_
    by_cases zero : condition.raw = 0
    · rw [if_pos zero, if_pos zero, if_pos zero, runFrom_behind]
      exact holds.runLast (Nat.zero_le _) later
    · rw [if_neg zero, if_neg zero, if_neg zero]
      exact holds.runBranch unlimitedPopped takenBalanced.findsMarkers takenDefines endIf
        (fun _ => rfl) _

/-- A zero selects the second branch behind a first one that holds a conditional. -/
theorem executeProgram_conditional_zero :
    EndsAlike (fun _ => False) (SlowerBy 2) SameState
      (executeProgram [.control .beginIf, .control .beginIf, .control .beginElse,
          .control .endIf, .control .beginElse, .push (.ofBytes [5]), .control .endIf,
          .stack .pop]
        { new {} with memory := { stack := ⟨[.int 0], 4096⟩ } })
      (executeProgram [.push (.ofBytes [5]), .stack .pop] (new {})) := by
  have rest : { new {} with memory := { stack := ⟨[.int 0], 4096⟩ } }.AtRest :=
    (atRest_new {}).withMemory _
  have taken : Program.Balanced false
      [.control .beginIf, .control .beginElse, .control .endIf] :=
    .conditional (.marker .nil) .nil
  have other : Program.Balanced false [.push (.ofBytes [5])] := .plain rfl .nil
  exact (rest.executeProgram_conditional rfl rfl taken other (by decide) (by decide)
    [.stack .pop]).1

end Hinting.Machine
