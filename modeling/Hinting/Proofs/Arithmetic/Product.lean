import Hinting.Proofs.Checked.Arithmetic

/-!
Products.

The product of whole numbers wraps around. Any other product is rounded to the nearest sixty-fourth
and stops at the bounds, and 128 bits are enough for it before it does.
-/

namespace Hinting

/-! ## Rounding -/

namespace Fixed

/-- `whole` is the whole number nearest to `number / 64`, or of two that are as near the one farther
from zero. -/
structure Rounds (number whole : Int) : Prop where
  nearest : ∀ other : Int, (number - 64 * whole).natAbs ≤ (number - 64 * other).natAbs
  farther : ∀ other : Int, (number - 64 * other).natAbs = (number - 64 * whole).natAbs →
    other.natAbs ≤ whole.natAbs

namespace Rounds

variable {number whole other : Int}

theorem unique (rounds : Rounds number whole) (rounded : Rounds number other) : whole = other := by
  have near := rounds.nearest other
  have otherNear := rounded.nearest whole
  have far := rounds.farther other
  have otherFar := rounded.farther whole
  -- Two opposite numbers are as near to zero only, and then zero is nearer.
  have zero := rounds.nearest 0
  omega

theorem of_nonneg (nonneg : 0 ≤ number) : Rounds number ((number + 32) / 64) where
  nearest other := by omega
  farther other same := by omega

theorem neg (rounds : Rounds number whole) : Rounds (-number) (-whole) where
  nearest other := by
    have near := rounds.nearest (-other)
    omega
  farther other same := by
    have far := rounds.farther (-other)
    omega

end Rounds

/-- Half a sixty-fourth is added away from zero before the fraction is cut off. -/
theorem rounds_mul (left right : Int64) :
    ∃ rounded, Rounds (left.toInt * right.toInt) rounded ∧
      (mul left right).toInt = saturated rounded := by
  refine ⟨_, ?_, toInt_ofIntClamp _⟩
  generalize left.toInt * right.toInt = product
  split
  · have mirrored : product - 32 = -(-product + 32) := by omega
    rw [mirrored, Int.neg_tdiv, Int.tdiv_eq_ediv_of_nonneg (by omega)]
    have rounds : Rounds (-product) ((-product + 32) / 64) := .of_nonneg (by omega)
    simpa using rounds.neg
  · rw [Int.tdiv_eq_ediv_of_nonneg (by omega)]
    exact .of_nonneg (by omega)

end Fixed

/-! ## Products -/

namespace Value

/-- The product of whole numbers modulo 2^64, and otherwise that of the promoted values rounded to
the nearest sixty-fourth, if it is in range. -/
def IsProduct : Value → Value → Value → Prop :=
  IsResult (fun left right product => product = left * right)
    fun left right product => Fixed.Rounds (left * right) product

variable {left right product other : Value}

theorem IsProduct.unique (multiplied : IsProduct left right product)
    (again : IsProduct left right other) : product = other :=
  IsResult.unique (fun one another => one.trans another.symm)
    (fun one another => one.unique another) multiplied again

theorem isProduct_onValues (left right : Value) :
    IsProduct left right (BinaryOperation.mul.onValues left right) := by
  rcases isFixed_or_ints left right with mixed | ⟨number, other, rfl, rfl⟩
  · rcases Fixed.rounds_mul left.fixedBits right.fixedBits with ⟨rounded, rounds, stops⟩
    rw [toInt_fixedBits, toInt_fixedBits] at rounds
    rw [BinaryOperation.onValues, promote_of_isFixed mixed]
    exact .fixed mixed rounds stops
  · exact .int rfl (Int64.toInt_mul number other)

end Value

namespace BinaryOperation

/-- On a stack that keeps to its limit, a multiplication replaces its operands by their one product.
All that is calculated with on the way to a fixed-point product is in the range of 128 bits. -/
theorem apply_mul_isProduct (left right : Value) {below : List Value} {maxDepth : Nat}
    (fits : below.length + 2 ≤ maxDepth) :
    (∃ product, apply mul ⟨right :: left :: below, maxDepth⟩ = .ok () ⟨product :: below, maxDepth⟩ ∧
      ∀ other, left.IsProduct right other ↔ other = product) ∧
    ∀ first second, Checked.fixedMul? first second = some (Fixed.mul first second) := by
  refine ⟨⟨_, apply_of_values fits nofun, fun other => ?_⟩, Checked.fixedMul?_eq⟩
  have product := left.isProduct_onValues right
  exact ⟨fun multiplied => multiplied.unique product, fun same => same ▸ product⟩

/-- The product is half a sixty-fourth below zero. -/
theorem apply_mul_isProduct_half :
    apply mul ⟨[.fixed 1, .fixed (-32)], 2⟩ = .ok () ⟨[.fixed (-1)], 2⟩ ∧
      (Value.fixed (-32)).IsProduct (.fixed 1) (.fixed (-1)) := by
  have calculated : apply mul ⟨[.fixed 1, .fixed (-32)], 2⟩ = .ok () ⟨[.fixed (-1)], 2⟩ := rfl
  have fits : ([] : List Value).length + 2 ≤ 2 := Nat.le_refl 2
  rcases (apply_mul_isProduct (.fixed (-32)) (.fixed 1) fits).1 with ⟨product, applied, unique⟩
  rw [calculated] at applied
  cases applied
  exact ⟨calculated, (unique _).mpr rfl⟩

end BinaryOperation

end Hinting
