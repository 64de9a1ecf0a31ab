import Hinting.Proofs.Machine.Rest

/-!
Levels that are enough.

The number of levels that programs may be nested in only bounds the recursion of the definitions.
Where it is not below what the call depth limit leaves room for, a run never gets to the last level,
and more levels make no difference.
-/

namespace Hinting.Machine

/-- The levels of the place are enough for the program there, for as many function bodies as the
call depth limit still admits, and for the font program unless it is active. -/
structure Place.Roomy (limits : Limits) (place : Place) : Prop where
  bounded : place.depth ≤ limits.maxCallDepth
  enough : limits.maxCallDepth + (if place.inFontProgram then 1 else 2) ≤
    place.levels + place.depth

namespace Place.Roomy

variable {limits : Limits} {levels depth : Nat} {inside : Bool}

theorem enter (roomy : Roomy limits ⟨levels + 1, depth, inside⟩)
    (room : depth < limits.maxCallDepth) : Roomy limits ⟨levels, depth + 1, inside⟩ where
  bounded := room
  enough := by
    have enough := roomy.enough
    dsimp only at enough ⊢
    omega

theorem leave (roomy : Roomy limits ⟨levels, depth + 1, inside⟩) :
    Roomy limits ⟨levels + 1, depth, inside⟩ where
  bounded := Nat.le_of_succ_le roomy.bounded
  enough := by
    have enough := roomy.enough
    dsimp only at enough ⊢
    omega

theorem startFontProgram (roomy : Roomy limits ⟨levels + 1, depth, false⟩) :
    Roomy limits ⟨levels, depth, true⟩ where
  bounded := roomy.bounded
  enough := by
    have enough := roomy.enough
    simp only [Bool.false_eq_true, if_false, if_true] at enough ⊢
    omega

theorem endFontProgram (roomy : Roomy limits ⟨levels, depth, true⟩) :
    Roomy limits ⟨levels + 1, depth, false⟩ where
  bounded := roomy.bounded
  enough := by
    have enough := roomy.enough
    simp only [Bool.false_eq_true, if_false, if_true] at enough ⊢
    omega

theorem not_zero (roomy : Roomy limits ⟨0, depth, inside⟩) : False := by
  have bounded := roomy.bounded
  have enough := roomy.enough
  dsimp only at bounded enough
  split at enough <;> omega

end Place.Roomy

/-- A shift between places with enough levels. On the right there are `spare` more of them. -/
def spareShift (limits : Limits) (more spare : Nat) : Correspondence :=
  let base := shift limits 0 more
  { related := fun place left right => base.related place left right ∧ place.Roomy limits
    excused := base.excused
    admits := base.admits
    spareLevels := spare
    tick := fun related => (base.tick related.1).weaken fun _ _ kept => ⟨kept, related.2⟩
    data := fun _ _ place left right related =>
      (Shifted.keeps _ place left right related.1).weaken fun _ _ kept => ⟨kept, related.2⟩
    require := fun place left right related =>
      (base.require place left right related.1).weaken fun _ _ kept => ⟨kept, related.2⟩
    peek := fun place left right related =>
      (base.peek place left right related.1).weaken fun _ _ kept => ⟨kept, related.2⟩
    pop := fun place left right related =>
      (base.pop place left right related.1).weaken fun _ _ kept => ⟨kept, related.2⟩
    popTwo := fun place left right related =>
      (base.popTwo place left right related.1).weaken fun _ _ kept => ⟨kept, related.2⟩
    journal := fun related _ _ => ⟨base.journal related.1 _ _, related.2⟩
    capture := fun related _ => ⟨base.capture related.1 _, related.2⟩
    define := fun related _ _ => ⟨base.define related.1 _ _, related.2⟩
    startFontProgram := fun related program =>
      ⟨base.startFontProgram related.1 program, related.2.startFontProgram⟩
    endFontProgram := fun related => ⟨base.endFontProgram related.1, related.2.endFontProgram⟩
    refuse := fun related => base.refuse related.1
    enter := by
      intro levels depth inside left right related room
      have entered := base.enter related.1 room
      have depths := related.1.leftDepth
      rw [related.1.leftLimits] at room
      exact ⟨entered.1, entered.2, related.2.enter (by dsimp only at depths; omega)⟩
    leave := fun related => ⟨base.leave related.1, related.2.leave⟩
    floor := fun related => related.2.not_zero.elim }

end Hinting.Machine
