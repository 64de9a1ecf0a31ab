import Hinting.Proofs.Arithmetic.Operands

/-!
The order of values.

Values are ordered as the numbers that they stand for, with one exception. A whole number beyond the
range of fixed point stops at the bound when it is promoted, and is then equal to the bound.
-/

namespace Hinting

/-! ## Orders -/

theorem compare_toInt (left right : Int64) :
    Ord.compare left right = Ord.compare left.toInt right.toInt := by
  have ordered : Ord.compare left right = compareOfLessAndEq left right := rfl
  rw [ordered, compareOfLessAndEq, Int.compare_eq_ite_lt]
  simp only [Int64.lt_iff_toInt_lt, ← Int64.toInt_inj]
  rcases Int.lt_trichotomy left.toInt right.toInt with less | same | greater
  · rw [if_pos less, if_pos less]
  · simp [same]
  · rw [if_neg (Int.lt_asymm greater), if_neg (Int.ne_of_gt greater),
      if_neg (Int.lt_asymm greater), if_pos greater]

theorem compare_congr {left right first second : Int} (less : left < right ↔ first < second)
    (greater : right < left ↔ second < first) :
    Ord.compare left right = Ord.compare first second := by
  simp only [Int.compare_eq_ite_lt, less, greater]

namespace Value

/-- The order of the promoted values is the order of numbers that have stopped at the bounds. -/
theorem compare_of_isFixed {left right : Value} (mixed : left.isFixed || right.isFixed) :
    compare left right =
      Ord.compare (saturated left.sixtyFourths) (saturated right.sixtyFourths) := by
  rw [compare, promote_of_isFixed mixed, ← toInt_fixedBits, ← toInt_fixedBits]
  exact compare_toInt _ _

/-- The whole number is beyond the range of fixed point, and the other value is the bound on this
side. -/
def StopsAt : Value → Value → Prop
  | int number, fixed bits =>
      2 ^ 63 - 1 < 64 * number.toInt ∧ bits.toInt = 2 ^ 63 - 1 ∨
        64 * number.toInt < -2 ^ 63 ∧ bits.toInt = -2 ^ 63
  | _, _ => False

instance : (whole bound : Value) → Decidable (StopsAt whole bound)
  | int _, fixed _ => inferInstanceAs (Decidable (_ ∧ _ ∨ _ ∧ _))
  | int _, int _ => inferInstanceAs (Decidable False)
  | fixed _, _ => inferInstanceAs (Decidable False)

theorem compare_saturated {whole bound : Int} (low : -2 ^ 63 ≤ bound) (high : bound < 2 ^ 63) :
    Ord.compare (saturated whole) bound =
      if 2 ^ 63 - 1 < whole ∧ bound = 2 ^ 63 - 1 ∨ whole < -2 ^ 63 ∧ bound = -2 ^ 63 then .eq
      else Ord.compare whole bound := by
  rw [saturated]
  split
  · rw [Int.compare_eq_eq]
    omega
  · exact compare_congr (by omega) (by omega)

theorem compare_eq (left right : Value) :
    compare left right =
      if left.StopsAt right ∨ right.StopsAt left then .eq
      else Ord.compare left.sixtyFourths right.sixtyFourths := by
  cases left with
  | int left =>
      cases right with
      | int right =>
          -- Whole numbers are compared as they are, so that none of them stops at a bound.
          have apart : ¬((int left).StopsAt (int right) ∨ (int right).StopsAt (int left)) := by
            simp [StopsAt]
          have whole : compare (int left) (int right) = Ord.compare left.toInt right.toInt :=
            compare_toInt left right
          rw [if_neg apart, whole]
          exact compare_congr (Int.mul_lt_mul_left (by decide)).symm
            (Int.mul_lt_mul_left (by decide)).symm
      | fixed right =>
          rw [compare_of_isFixed rfl]
          simp only [sixtyFourths, StopsAt, or_false, saturated_toInt]
          exact compare_saturated right.le_toInt right.toInt_lt
  | fixed left =>
      rw [compare_of_isFixed rfl]
      cases right with
      | int right =>
          simp only [sixtyFourths, StopsAt, false_or, saturated_toInt]
          rw [← Int.compare_swap, compare_saturated left.le_toInt left.toInt_lt,
            apply_ite Ordering.swap, Int.compare_swap]
          rfl
      | fixed right =>
          simp only [sixtyFourths, StopsAt, or_false, saturated_toInt, if_false]

end Value

/-! ## Comparisons -/

namespace BinaryOperation

/-- The operations that compare, each with the orders of its operands that it is true of. -/
def comparisons : List (BinaryOperation × List Ordering) :=
  [(lt, [.lt]), (lteq, [.lt, .eq]), (gt, [.gt]), (gteq, [.gt, .eq]), (eq, [.eq]),
    (neq, [.lt, .gt])]

theorem onValues_of_comparison {operation : BinaryOperation} {orders : List Ordering}
    (member : (operation, orders) ∈ comparisons) (left right : Value) :
    operation.onValues left right =
      .int (if Value.compare left right ∈ orders then 1 else 0) := by
  simp only [comparisons, List.mem_cons, Prod.mk.injEq, List.not_mem_nil, or_false] at member
  rcases member with ⟨rfl, rfl⟩ | ⟨rfl, rfl⟩ | ⟨rfl, rfl⟩ | ⟨rfl, rfl⟩ | ⟨rfl, rfl⟩ | ⟨rfl, rfl⟩
  all_goals
    rw [onValues]
    cases Value.compare left right <;> rfl

theorem ne_div_of_comparison {operation : BinaryOperation} {orders : List Ordering}
    (member : (operation, orders) ∈ comparisons) : operation ≠ div := by
  rintro rfl
  simp [comparisons] at member

/-- Two values are compared as the numbers that they stand for, and they are equal if one of them is
a whole number that stops at the other. On a stack that keeps to its limit the comparisons replace
them by one or zero accordingly, the value that was pushed first being on the left. -/
theorem comparison_of_numbers (left right : Value) :
    (Value.compare left right =
      if left.StopsAt right ∨ right.StopsAt left then .eq
      else Ord.compare left.sixtyFourths right.sixtyFourths) ∧
    ∀ operation orders, (operation, orders) ∈ comparisons →
      ∀ below maxDepth, below.length + 2 ≤ maxDepth →
        operation.apply ⟨right :: left :: below, maxDepth⟩ =
          .ok ()
            ⟨.int (if Value.compare left right ∈ orders then 1 else 0) :: below, maxDepth⟩ := by
  refine ⟨Value.compare_eq left right, fun operation orders member below maxDepth fits => ?_⟩
  have compares := ne_div_of_comparison member
  rw [apply_of_values fits fun divides => absurd divides compares, onValues_of_comparison member]

/-- A whole number that is a sixty-fourth above the greatest fixed-point number is equal to it. -/
theorem comparison_of_numbers_bound :
    let whole : Value := .int 144115188075855872
    let bound : Value := .fixed Int64.maxValue
    whole.sixtyFourths = bound.sixtyFourths + 1 ∧ Value.compare whole bound = .eq ∧
      apply gt ⟨[bound, whole], 2⟩ = .ok () ⟨[.int 0], 2⟩ := by
  intro whole bound
  have compared := comparison_of_numbers whole bound
  have stops : whole.StopsAt bound ∨ bound.StopsAt whole := .inl (by decide)
  have equal : Value.compare whole bound = .eq := by rw [compared.1, if_pos stops]
  refine ⟨by decide, equal, ?_⟩
  have pushed := compared.2 gt [.gt] (by decide) [] 2 (Nat.le_refl 2)
  rw [equal] at pushed
  exact pushed

end BinaryOperation

end Hinting
