import Hinting.Proofs.Checked.Arithmetic

/-!
Quotients.

A division is refused by looking at the divisor as it is stored. No divisor that passes becomes zero
when it is promoted. Quotients lose their fraction, and then wrap around if they are whole and stop
at the bounds if they are not.
-/

namespace Hinting

/-! ## Truncation -/

/-- `quotient` is what is left of `numerator / denominator` without the fraction: the remainder is
smaller than the denominator, and not beyond zero from the numerator. -/
structure Truncates (numerator denominator quotient : Int) : Prop where
  smaller : (numerator - denominator * quotient).natAbs < denominator.natAbs
  nonneg : 0 ≤ numerator → 0 ≤ numerator - denominator * quotient
  nonpos : numerator ≤ 0 → numerator - denominator * quotient ≤ 0

namespace Truncates

variable {numerator denominator quotient other : Int}

theorem unique (truncates : Truncates numerator denominator quotient)
    (truncated : Truncates numerator denominator other) : quotient = other := by
  have smaller := truncates.smaller
  have otherSmaller := truncated.smaller
  -- The remainders are on one side of zero, so they differ by less than the denominator.
  have close : (denominator * (quotient - other)).natAbs < denominator.natAbs * 1 := by
    rw [Int.mul_sub]
    rcases Int.le_total 0 numerator with positive | negative
    · have nonneg := truncates.nonneg positive
      have otherNonneg := truncated.nonneg positive
      omega
    · have nonpos := truncates.nonpos negative
      have otherNonpos := truncated.nonpos negative
      omega
  rw [Int.natAbs_mul] at close
  have same := Nat.lt_of_mul_lt_mul_left close
  omega

theorem tdiv (nonzero : denominator ≠ 0) :
    Truncates numerator denominator (numerator.tdiv denominator) where
  smaller := by
    rw [← Int.tmod_def, Int.natAbs_tmod]
    exact Nat.mod_lt _ (Int.natAbs_pos.mpr nonzero)
  nonneg positive := by
    rw [← Int.tmod_def]
    exact Int.tmod_nonneg denominator positive
  nonpos negative := by
    have mirrored := Int.tmod_nonneg denominator (Int.neg_nonneg_of_nonpos negative)
    rw [Int.neg_tmod] at mirrored
    rw [← Int.tmod_def]
    omega

end Truncates

theorem Fixed.truncates_div (left : Int64) {right : Int64} (nonzero : right ≠ 0) :
    ∃ truncated, Truncates (64 * left.toInt) right.toInt truncated ∧
      (Fixed.div left right).toInt = saturated truncated := by
  have divisor : right.toInt ≠ 0 := fun zero => nonzero (Int64.toInt_inj.mp zero)
  refine ⟨(64 * left.toInt).tdiv right.toInt, .tdiv divisor, ?_⟩
  rw [Fixed.div, toInt_ofIntClamp, Int.mul_comm]

/-! ## Quotients -/

namespace Value

/-- The quotient of whole numbers without its fraction, modulo 2^64, and otherwise that of the
promoted values in sixty-fourths without a fraction of one, if it is in range. -/
def IsQuotient : Value → Value → Value → Prop :=
  IsResult Truncates fun left right quotient => Truncates (64 * left) right quotient

variable {left right quotient other : Value}

theorem IsQuotient.unique (divided : IsQuotient left right quotient)
    (again : IsQuotient left right other) : quotient = other :=
  IsResult.unique (fun one another => one.unique another)
    (fun one another => one.unique another) divided again

theorem isQuotient_onValues (left : Value) {right : Value} (nonzero : right.raw ≠ 0) :
    IsQuotient left right (BinaryOperation.div.onValues left right) := by
  rcases isFixed_or_ints left right with mixed | ⟨number, divisor, rfl, rfl⟩
  · rcases Fixed.truncates_div left.fixedBits (fixedBits_ne_zero nonzero) with
      ⟨truncated, truncates, stops⟩
    rw [toInt_fixedBits, toInt_fixedBits] at truncates
    rw [BinaryOperation.onValues, promote_of_isFixed mixed]
    exact .fixed mixed truncates stops
  · have divides : divisor.toInt ≠ 0 := fun zero => nonzero (Int64.toInt_inj.mp zero)
    exact .int (.tdiv divides) (Int64.toInt_div number divisor)

end Value

namespace BinaryOperation

/-- On a stack that keeps to its limit, a division is refused if and only if its divisor is stored
as zero, and leaves the stack then. Otherwise the divisor is not promoted to zero, and the one
quotient takes the place of the operands. All that is calculated with on the way to a fixed-point
quotient is in the range of 128 bits. -/
theorem apply_div_isQuotient (left right : Value) {below : List Value} {maxDepth : Nat}
    (fits : below.length + 2 ≤ maxDepth) :
    (∀ after, apply div ⟨right :: left :: below, maxDepth⟩ = .error .divisionByZero after ↔
      right.raw = 0 ∧ after = ⟨right :: left :: below, maxDepth⟩) ∧
    (right.raw ≠ 0 → right.fixedBits ≠ 0 ∧
      ∃ quotient, apply div ⟨right :: left :: below, maxDepth⟩ =
          .ok () ⟨quotient :: below, maxDepth⟩ ∧
        ∀ other, left.IsQuotient right other ↔ other = quotient) ∧
    ∀ first second, second ≠ 0 →
      Checked.fixedDiv? first second = some (Fixed.div first second) := by
  refine ⟨fun after => ?_, fun nonzero => ?_, fun first _ => Checked.fixedDiv?_eq first⟩
  · by_cases zero : right.raw = 0
    · rw [apply_eq, if_pos ⟨rfl, zero⟩]
      constructor
      · rintro ⟨⟩
        exact ⟨zero, rfl⟩
      · rintro ⟨_, rfl⟩
        rfl
    · rw [apply_of_values fits fun _ => zero]
      exact ⟨nofun, fun refused => absurd refused.1 zero⟩
  · refine ⟨Value.fixedBits_ne_zero nonzero, _, apply_of_values fits fun _ => nonzero,
      fun other => ?_⟩
    have quotient := left.isQuotient_onValues nonzero
    exact ⟨fun divided => divided.unique quotient, fun same => same ▸ quotient⟩

/-- The least whole number has no opposite and is its own quotient by minus one. -/
theorem apply_div_isQuotient_least :
    let least : Value := .int Int64.minValue
    apply div ⟨[.int (-1), least], 2⟩ = .ok () ⟨[least], 2⟩ ∧
      least.IsQuotient (.int (-1)) least := by
  intro least
  have calculated : apply div ⟨[.int (-1), least], 2⟩ = .ok () ⟨[least], 2⟩ := rfl
  have fits : ([] : List Value).length + 2 ≤ 2 := Nat.le_refl 2
  rcases (apply_div_isQuotient least (.int (-1)) fits).2.1 (by decide) with
    ⟨_, quotient, applied, unique⟩
  rw [calculated] at applied
  cases applied
  exact ⟨calculated, (unique _).mpr rfl⟩

end BinaryOperation

end Hinting
