import Hinting.Machine.Run
import Hinting.Proofs.Program.Marker

/-!
Where a skipped branch ends.

A look ahead counts conditionals, and what it passes over is described by a grammar. The number of
conditionals that are open tells which part of the grammar is left.
-/

namespace Hinting

namespace Program

/-- A program inside of `nested` conditionals that began before it. It ends all of them, and what
stands between their ends is balanced. -/
inductive Closes (elses : Bool) : (nested : Nat) → Program → Prop
  | balanced {program : Program} : Balanced elses program → Closes elses 0 program
  | conditional {nested : Nat} {inside rest : Program} :
      Balanced true inside → Closes elses nested rest →
        Closes elses (nested + 1) (inside ++ .control .endIf :: rest)

namespace Closes

variable {elses : Bool} {nested : Nat} {rest : Program}

theorem plain {instruction : Instruction} (plain : instruction.isConditional = false)
    (closes : Closes elses nested rest) : Closes elses nested (instruction :: rest) := by
  cases closes with
  | balanced balanced => exact .balanced (.plain plain balanced)
  | conditional inside closes => exact .conditional (.plain plain inside) closes

theorem marker (allowed : nested = 0 → elses = true) (closes : Closes elses nested rest) :
    Closes elses nested (.control .beginElse :: rest) := by
  cases closes with
  | balanced balanced =>
      rw [allowed rfl] at balanced ⊢
      exact .balanced (.marker balanced)
  | conditional inside closes => exact .conditional (.marker inside) closes

theorem beginIf (closes : Closes elses (nested + 1) rest) :
    Closes elses nested (.control .beginIf :: rest) := by
  cases closes with
  | @conditional _ inside _ balanced closes =>
      cases closes with
      | balanced balancedRest => exact .balanced (.conditional balanced balancedRest)
      | @conditional _ next rest balancedNext closes =>
          -- The whole conditional stands in front of the end of the next one that is open.
          have joined : Instruction.control .beginIf ::
                (inside ++ .control .endIf :: (next ++ .control .endIf :: rest)) =
              (.control .beginIf :: (inside ++ .control .endIf :: next)) ++
                .control .endIf :: rest := by simp
          rw [joined]
          exact .conditional (.conditional balanced balancedNext) closes

theorem endIf (closes : Closes elses nested rest) :
    Closes elses (nested + 1) (.control .endIf :: rest) :=
  .conditional .nil closes

theorem of_nestedBehind {stopAtElse : Bool} {instruction : Instruction}
    (passed : instruction.isMarker stopAtElse nested = false)
    (closes : Closes (!stopAtElse) (instruction.nestedBehind nested) rest) :
    Closes (!stopAtElse) nested (instruction :: rest) := by
  cases instruction with
  | control operation =>
      cases operation with
      | beginIf => exact closes.beginIf
      | beginElse =>
          refine closes.marker fun outermost => ?_
          simpa [Instruction.isMarker, outermost] using passed
      | endIf =>
          cases nested with
          | zero => exact nomatch passed
          | succ nested => exact closes.endIf
      | _ => exact closes.plain rfl
  | _ => exact closes.plain rfl

end Closes

end Program

/-! ## Markers and what is in front of them -/

section

variable {stopAtElse : Bool} {nested distance : Nat}

theorem Instruction.eq_zero_of_isMarker {marker : Instruction}
    (stops : marker.isMarker stopAtElse nested = true) : nested = 0 := by
  unfold isMarker at stops
  split at stops
  · rw [Bool.and_eq_true, decide_eq_true_eq] at stops
    exact stops.2
  · exact of_decide_eq_true stops
  · exact nomatch stops

theorem Instruction.isMarker_zero_iff {marker : Instruction} :
    marker.isMarker stopAtElse 0 = true ↔
      marker = .control .endIf ∨ stopAtElse = true ∧ marker = .control .beginElse := by
  unfold isMarker
  split <;> simp_all

theorem exists_closes_of_distanceToMarker? {program : Program}
    (found : distanceToMarker? stopAtElse nested program = some distance) :
    ∃ passed marker behind, program = passed ++ marker :: behind ∧
      distance = passed.length + 1 ∧ marker.isMarker stopAtElse 0 = true ∧
        Program.Closes (!stopAtElse) nested passed := by
  induction program generalizing nested distance with
  | nil => exact nomatch found
  | cons instruction program induction =>
      rcases distanceToMarker?_cons_eq_some.mp found with
        ⟨stops, rfl⟩ | ⟨passes, further, rfl, foundBehind⟩
      · cases Instruction.eq_zero_of_isMarker stops
        exact ⟨[], instruction, program, rfl, rfl, stops, .balanced .nil⟩
      · rcases induction foundBehind with ⟨passed, marker, behind, rfl, rfl, stops, closes⟩
        exact ⟨instruction :: passed, marker, behind, rfl, rfl, stops,
          closes.of_nestedBehind passes⟩

theorem distanceToMarker?_eq_some_iff {program : Program} :
    distanceToMarker? stopAtElse 0 program = some distance ↔
      ∃ passed marker behind, program = passed ++ marker :: behind ∧
        distance = passed.length + 1 ∧ marker.isMarker stopAtElse 0 = true ∧
          Program.Balanced (!stopAtElse) passed := by
  constructor
  · intro found
    rcases exists_closes_of_distanceToMarker? found with
      ⟨passed, marker, behind, split, ends, stops, ⟨balanced⟩⟩
    exact ⟨passed, marker, behind, split, ends, stops, balanced⟩
  · rintro ⟨passed, marker, behind, rfl, rfl, stops, balanced⟩
    have passes : (!stopAtElse) = true → stopAtElse = true → 0 < 0 := by
      cases stopAtElse <;> simp
    rw [balanced.distanceToMarker?_append passes, distanceToMarker?_cons, if_pos stops,
      Option.map_some, Nat.add_comm]

end

/-! ## Positions -/

/-- A branch that is skipped from `start` on ends in front of `resume`: there is its marker, and the
program between them is balanced. A branch that may not end at an ELSE has any number of them. -/
structure Program.EndsBranch (stopAtElse : Bool) (program : Program) (start resume : Nat) :
    Prop where
  later : start < resume
  inside : resume ≤ program.length
  marker : ∃ marker, program[resume - 1]? = some marker ∧
    (marker = .control .endIf ∨ stopAtElse = true ∧ marker = .control .beginElse)
  balanced : Balanced (!stopAtElse) (program.extract start (resume - 1))

section

variable {stopAtElse : Bool} {program : Program} {start resume : Nat}

theorem Program.endsBranch_iff :
    program.EndsBranch stopAtElse start resume ↔
      ∃ distance, distanceToMarker? stopAtElse 0 (program.drop start) = some distance ∧
        resume = start + distance := by
  constructor
  · rintro ⟨later, inside, ⟨marker, stands, stops⟩, balanced⟩
    rcases List.getElem?_eq_some_iff.mp stands with ⟨within, held⟩
    have reached : start + (resume - 1 - start) = resume - 1 := by omega
    have split : program.drop start =
        program.extract start (resume - 1) ++ marker :: program.drop resume := by
      calc program.drop start
          = (program.drop start).take (resume - 1 - start) ++
              (program.drop start).drop (resume - 1 - start) := (List.take_append_drop _ _).symm
        _ = program.extract start (resume - 1) ++ program.drop (resume - 1) := by
              rw [List.extract_eq_take_drop, List.drop_drop, reached]
        _ = program.extract start (resume - 1) ++ marker :: program.drop resume := by
              rw [List.drop_eq_getElem_cons within, held, Nat.sub_add_cancel (by omega)]
    have length : (program.extract start (resume - 1)).length = resume - 1 - start := by
      rw [List.extract_eq_take_drop, List.length_take, List.length_drop]
      omega
    refine ⟨resume - start, distanceToMarker?_eq_some_iff.mpr
      ⟨_, marker, _, split, ?_, Instruction.isMarker_zero_iff.mpr stops, balanced⟩, ?_⟩
    · rw [length]
      omega
    · omega
  · rintro ⟨distance, found, rfl⟩
    rcases distanceToMarker?_eq_some_iff.mp found with
      ⟨passed, marker, behind, split, rfl, stops, balanced⟩
    have length := congrArg List.length split
    rw [List.length_drop, List.length_append, List.length_cons] at length
    have last : start + (passed.length + 1) - 1 = start + passed.length := rfl
    refine ⟨by omega, by omega, ⟨marker, ?_, Instruction.isMarker_zero_iff.mp stops⟩, ?_⟩
    · rw [last, ← List.getElem?_drop, split, List.getElem?_append_right (Nat.le_refl _),
        Nat.sub_self, List.getElem?_cons_zero]
    · rwa [last, List.extract_eq_take_drop, split, Nat.add_sub_cancel_left, List.take_left]

theorem distanceToMarker?_eq_none_iff :
    distanceToMarker? stopAtElse 0 (program.drop start) = none ↔
      ¬∃ resume, program.EndsBranch stopAtElse start resume := by
  rw [Option.eq_none_iff_forall_ne_some]
  constructor
  · rintro none ⟨resume, ends⟩
    rcases Program.endsBranch_iff.mp ends with ⟨distance, found, _⟩
    exact none distance found
  · intro absent distance found
    exact absent ⟨start + distance, Program.endsBranch_iff.mpr ⟨distance, found, rfl⟩⟩

theorem Program.EndsBranch.unique {other : Nat} (ends : program.EndsBranch stopAtElse start resume)
    (otherEnds : program.EndsBranch stopAtElse start other) : resume = other := by
  rcases endsBranch_iff.mp ends with ⟨distance, found, rfl⟩
  rcases endsBranch_iff.mp otherEnds with ⟨otherDistance, otherFound, rfl⟩
  rw [Option.some.inj (found.symm.trans otherFound)]

namespace Machine

variable {rest : Program} {machine : Machine}

theorem skipBranch_eq_ok_iff {distance : Nat} :
    skipBranch stopAtElse rest machine = .ok distance machine ↔
      distanceToMarker? stopAtElse 0 rest = some distance := by
  rw [skipBranch]
  cases distanceToMarker? stopAtElse 0 rest with
  | none => exact ⟨nofun, nofun⟩
  | some found =>
      constructor
      · rintro ⟨⟩
        rfl
      · rintro ⟨⟩
        rfl

theorem skipBranch_eq_unbalanced_iff :
    skipBranch stopAtElse rest machine = .error { cause := .unbalancedConditional } machine ↔
      distanceToMarker? stopAtElse 0 rest = none := by
  rw [skipBranch]
  cases distanceToMarker? stopAtElse 0 rest with
  | none => exact ⟨fun _ => rfl, fun _ => rfl⟩
  | some found => exact ⟨nofun, nofun⟩

end Machine

end

/-- A look ahead from any place of any program ends behind the marker of the branch. There is at
most one, and without it the conditional is unbalanced. -/
theorem Machine.skipBranch_endsBranch (stopAtElse : Bool) (program : Program) (start : Nat)
    (machine : Machine) :
    (∀ resume, (∃ distance, skipBranch stopAtElse (program.drop start) machine =
        .ok distance machine ∧ resume = start + distance) ↔
      program.EndsBranch stopAtElse start resume) ∧
    (∀ resume other, program.EndsBranch stopAtElse start resume →
      program.EndsBranch stopAtElse start other → resume = other) ∧
    (skipBranch stopAtElse (program.drop start) machine =
        .error { cause := .unbalancedConditional } machine ↔
      ¬∃ resume, program.EndsBranch stopAtElse start resume) := by
  simp only [skipBranch_eq_ok_iff, skipBranch_eq_unbalanced_iff]
  refine ⟨fun resume => Program.endsBranch_iff.symm,
    fun resume other ends otherEnds => ends.unique otherEnds, ?_⟩
  constructor
  · rintro none ⟨resume, ends⟩
    rcases Program.endsBranch_iff.mp ends with ⟨distance, found, _⟩
    exact nomatch none.symm.trans found
  · intro absent
    rw [Option.eq_none_iff_forall_not_mem]
    intro distance found
    exact absent ⟨start + distance, Program.endsBranch_iff.mpr ⟨distance, found, rfl⟩⟩

end Hinting
