import Hinting.Execution.Arithmetic
import Hinting.Proofs.Memory.Atomicity
import Mathlib.Algebra.Group.Int.Defs
import Mathlib.Algebra.Group.Nat.Defs

/-!
Operands and the numbers that they stand for.

Every value is a number of sixty-fourths. The greatest whole numbers have no room for their
sixty-fourths in 64 bits, and stop at the bounds when they are promoted.
-/

namespace Hinting

/-! ## Bounds -/

def saturated (number : Int) : Int :=
  max (-2 ^ 63) (min number (2 ^ 63 - 1))

example : saturated (2 ^ 64) = 2 ^ 63 - 1 := by decide

theorem saturated_of_bounds {number : Int} (low : -2 ^ 63 ≤ number) (high : number < 2 ^ 63) :
    saturated number = number := by
  rw [saturated]
  omega

@[simp] theorem saturated_toInt (number : Int64) : saturated number.toInt = number.toInt :=
  saturated_of_bounds number.le_toInt number.toInt_lt

theorem toInt_ofIntClamp (number : Int) :
    (Int64.ofIntClamp number).toInt = saturated number := by
  have least : Int64.minValue.toInt = -2 ^ 63 := rfl
  have greatest : Int64.maxValue.toInt = 2 ^ 63 - 1 := rfl
  rw [Int64.ofIntClamp, saturated]
  split
  · split
    · rw [Int64.toInt_ofIntLE]
      omega
    · omega
  · omega

/-! ## Numbers -/

namespace Value

/-- How many sixty-fourths the value is. There is no bound to this number. -/
def sixtyFourths : Value → Int
  | int number => 64 * number.toInt
  | fixed bits => bits.toInt

example : (int 3).sixtyFourths = (fixed 192).sixtyFourths := by decide

theorem toInt_fixedBits (value : Value) : value.fixedBits.toInt = saturated value.sixtyFourths := by
  cases value with
  | int number => rw [fixedBits, toInt_ofIntClamp, sixtyFourths, Int.mul_comm]
  | fixed bits => exact (saturated_toInt bits).symm

theorem fixedBits_ne_zero {value : Value} (nonzero : value.raw ≠ 0) : value.fixedBits ≠ 0 := by
  intro zero
  have stopped := value.toInt_fixedBits
  rw [zero] at stopped
  apply nonzero
  rw [← Int64.toInt_inj]
  cases value with
  | int number =>
      simp only [saturated, sixtyFourths, raw, Int64.toInt_zero] at stopped ⊢
      omega
  | fixed bits => exact congrArg Int64.toInt zero

theorem toInt_integerPart (value : Value) :
    value.integerPart.toInt = value.sixtyFourths.tdiv 64 := by
  cases value with
  | int number => exact (Int.mul_tdiv_cancel_left number.toInt (by decide)).symm
  | fixed bits =>
      have low := bits.le_toInt
      have high := bits.toInt_lt
      have size : (bits.toInt.tdiv 64).natAbs = bits.toInt.natAbs / 64 :=
        Int.natAbs_tdiv bits.toInt 64
      have divisor : (64 : Int64).toInt = 64 := rfl
      rw [integerPart, sixtyFourths, Int64.toInt_div, divisor]
      exact Int.bmod_eq_of_le (by omega) (by omega)

theorem promote_of_isFixed {left right : Value} (mixed : left.isFixed || right.isFixed) :
    promote left right = .fixed left.fixedBits right.fixedBits := by
  cases left with
  | fixed bits => rfl
  | int number =>
      cases right with
      | fixed bits => rfl
      | int other => exact nomatch mixed

theorem isFixed_or_ints (left right : Value) :
    (left.isFixed || right.isFixed) = true ∨
      ∃ number other, left = int number ∧ right = int other := by
  cases left with
  | fixed bits => exact .inl rfl
  | int number =>
      cases right with
      | fixed bits => exact .inl rfl
      | int other => exact .inr ⟨number, other, rfl, rfl⟩

/-! ## Results -/

section

variable {whole promoted : Int → Int → Int → Prop} {left right result other : Value}

/-- The result of an operation that is known on whole numbers, where it wraps around, and on
sixty-fourths, where it stops at the bounds. -/
inductive IsResult (whole promoted : Int → Int → Int → Prop) : Value → Value → Value → Prop
  | int {left right bits : Int64} {result : Int} (holds : whole left.toInt right.toInt result)
      (wraps : bits.toInt = result.bmod (2 ^ 64)) :
      IsResult whole promoted (.int left) (.int right) (.int bits)
  | fixed {left right : Value} {bits : Int64} {result : Int}
      (mixed : left.isFixed || right.isFixed)
      (holds : promoted (saturated left.sixtyFourths) (saturated right.sixtyFourths) result)
      (stops : bits.toInt = saturated result) :
      IsResult whole promoted left right (.fixed bits)

theorem IsResult.unique
    (wholeUnique : ∀ {left right result other}, whole left right result →
      whole left right other → result = other)
    (promotedUnique : ∀ {left right result other}, promoted left right result →
      promoted left right other → result = other)
    (isResult : IsResult whole promoted left right result)
    (isOther : IsResult whole promoted left right other) : result = other := by
  cases isResult with
  | int holds wraps =>
      cases isOther with
      | int otherHolds otherWraps =>
          rw [wholeUnique holds otherHolds, ← otherWraps] at wraps
          exact congrArg Value.int (Int64.toInt_inj.mp wraps)
      | fixed mixed _ _ => exact nomatch mixed
  | fixed mixed holds stops =>
      cases isOther with
      | int _ _ => exact nomatch mixed
      | fixed _ otherHolds otherStops =>
          rw [promotedUnique holds otherHolds, ← otherStops] at stops
          exact congrArg Value.fixed (Int64.toInt_inj.mp stops)

end

end Value

/-! ## On the stack -/

namespace BinaryOperation

variable {left right : Value} {below : List Value} {maxDepth : Nat}

theorem apply_eq (operation : BinaryOperation) (left right : Value) (below : List Value)
    (maxDepth : Nat) :
    operation.apply ⟨right :: left :: below, maxDepth⟩ =
      if operation = div ∧ right.raw = 0 then
        .error .divisionByZero ⟨right :: left :: below, maxDepth⟩
      else OperandStack.push (operation.onValues left right) ⟨below, maxDepth⟩ := by
  have present : OperandStack.require 2 ⟨right :: left :: below, maxDepth⟩ =
      .ok () ⟨right :: left :: below, maxDepth⟩ :=
    if_pos (Nat.le_add_left 2 below.length)
  have peeked : OperandStack.peek 0 ⟨right :: left :: below, maxDepth⟩ =
      .ok right ⟨right :: left :: below, maxDepth⟩ := rfl
  have refuses : (decide (operation = div) && !right.isTrue) = true ↔
      operation = div ∧ right.raw = 0 := by
    simp [Value.isTrue]
  rw [apply, bind_apply_of_ok present, bind_apply_of_ok peeked]
  simp only [refuses]
  split
  · rfl
  · rfl

theorem apply_of_values {operation : BinaryOperation} (fits : below.length + 2 ≤ maxDepth)
    (divisible : operation = div → right.raw ≠ 0) :
    operation.apply ⟨right :: left :: below, maxDepth⟩ =
      .ok () ⟨operation.onValues left right :: below, maxDepth⟩ := by
  rw [apply_eq, if_neg fun refused => divisible refused.1 refused.2, OperandStack.push_apply]
  exact if_pos (Nat.le_of_succ_le fits)

end BinaryOperation

end Hinting
