import Hinting.Proofs.Machine.Simulation

/-!
The same programs below more function bodies and after more steps.

Neither depths nor steps are visible to a program, so two machines with the same
limits and the same memory correspond whatever their depths and steps are. Only
the limits make a difference: more steps are harmless without a step budget, and
a deeper machine may fail for want of call depth.
-/

namespace Hinting.Machine

/-- On the left `deeper` more function bodies are active and `more` more steps have
been counted. -/
structure Shifted (limits : Limits) (deeper more : Nat) (place : Place)
    (left right : Machine) : Prop where
  leftLimits : left.limits = limits
  rightLimits : right.limits = limits
  unlimited : more = 0 ∨ limits.maxSteps = none
  memory : left.memory = right.memory
  leftDepth : left.callDepth = place.depth + deeper
  rightDepth : right.callDepth = place.depth
  steps : left.steps = right.steps + more

namespace Shifted

variable {limits : Limits} {deeper more : Nat} {place : Place} {left right : Machine}
  {excused : Fault → Prop}

theorem tick (shifted : Shifted limits deeper more place left right) :
    Agree excused offset (Shifted limits deeper more place) (tick left)
      (Machine.tick right) := by
  have ticked : Shifted limits deeper more place { left with steps := left.steps + 1 }
      { right with steps := right.steps + 1 } :=
    { shifted with
      steps := by
        have steps := shifted.steps
        dsimp only
        omega }
  have leftLimit : left.limits.maxSteps = limits.maxSteps := by rw [shifted.leftLimits]
  have rightLimit : right.limits.maxSteps = limits.maxSteps := by rw [shifted.rightLimits]
  rw [tick_apply, tick_apply, leftLimit, rightLimit]
  cases limited : limits.maxSteps with
  | none => exact .ok _ ticked
  | some limit =>
      -- With a budget there are no more steps on the left.
      have same : left.steps = right.steps := by
        rcases shifted.unlimited with none | unlimited
        · rw [shifted.steps, none, Nat.add_zero]
        · exact nomatch limited.symm.trans unlimited
      dsimp only
      rw [same] at ticked ⊢
      by_cases exceeded : limit < right.steps + 1
      · rw [if_pos exceeded, if_pos exceeded]
        exact .error { cause := .stepLimitExceeded limit } ticked
      · rw [if_neg exceeded, if_neg exceeded]
        exact .ok _ ticked

theorem keeps (action : MemoryAction α) :
    Keeps (Shifted limits deeper more) excused action := by
  intro place left right shifted
  unfold onMemory
  rw [shifted.memory]
  cases action right.memory with
  | ok result memory => exact .ok result { shifted with memory := rfl }
  | error cause memory => exact .error_same { cause } { shifted with memory := rfl }

end Shifted

/-- Without `deeper` nothing is excused. -/
def shift (limits : Limits) (deeper more : Nat) : Correspondence where
  related := Shifted limits deeper more
  excused fault := 0 < deeper ∧ ∃ limit, fault = .callDepthExceeded limit
  admits _ := True
  spareLevels := deeper
  tick := Shifted.tick
  data _ _ := Shifted.keeps _
  require := Shifted.keeps _
  peek := Shifted.keeps _
  pop := Shifted.keeps _
  popTwo := Shifted.keeps _
  journal shifted _ _ := { shifted with }
  capture shifted _ := { shifted with }
  define shifted _ _ := { shifted with }
  startFontProgram shifted _ := { shifted with }
  endFontProgram shifted := { shifted with }
  refuse := by
    intro levels depth inside left right shifted full
    rcases Nat.eq_zero_or_pos deeper with none | deeper
    · have leftDepth := shifted.leftDepth
      have rightDepth := shifted.rightDepth
      rw [shifted.leftLimits] at full ⊢
      rw [shifted.rightLimits]
      exact .inr ⟨by omega, rfl⟩
    · exact .inl ⟨deeper, _, rfl⟩
  enter := by
    intro levels depth inside left right shifted room
    have leftDepth := shifted.leftDepth
    have rightDepth := shifted.rightDepth
    rw [shifted.leftLimits] at room
    dsimp only at leftDepth rightDepth
    refine ⟨by rw [shifted.rightLimits]; omega, { shifted with leftDepth := ?_, rightDepth := ?_ }⟩
    · dsimp only
      omega
    · dsimp only
      omega
  leave := by
    intro levels depth inside left right shifted
    have leftDepth := shifted.leftDepth
    have rightDepth := shifted.rightDepth
    dsimp only at leftDepth rightDepth
    refine { shifted with leftDepth := ?_, rightDepth := ?_ }
    · dsimp only
      omega
    · dsimp only
      omega
  floor := by
    intro depth inside left right shifted
    rcases Nat.eq_zero_or_pos deeper with none | deeper
    · exact .inr ⟨none, by rw [shifted.leftLimits, shifted.rightLimits]⟩
    · exact .inl ⟨deeper, _, rfl⟩

theorem shift_strict (limits : Limits) (more : Nat) (cause : Fault) :
    ¬ (shift limits 0 more).excused cause :=
  fun excused => Nat.lt_irrefl 0 excused.1

end Hinting.Machine
