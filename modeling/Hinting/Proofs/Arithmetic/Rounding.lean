import Hinting.Execution.Arithmetic
import Hinting.Proofs.Stateful
import Mathlib.Algebra.Group.Int.Defs
import Mathlib.Order.Bounds.Defs

/-!
Rounding down and up.

The fraction of a fixed-point number is its six lowest bits. To clear them is to round down, and
that is rounding up if 63 sixty-fourths are added before. Rounding up wraps around where no multiple
of 64 is in range.
-/

namespace Hinting

/-! ## Numbers -/

namespace Fixed

theorem toInt_floor (bits : Int64) : (floor bits).toInt = bits.toInt / 64 * 64 := by
  have low := bits.le_toInt
  have high := bits.toInt_lt
  exact Int64.toInt_ofInt_of_le (by omega) (by omega)

theorem toInt_add_fraction {bits : Int64} (room : bits.toInt ≤ 2 ^ 63 - 64) :
    (bits + 63).toInt = bits.toInt + 63 := by
  have low := bits.le_toInt
  have fraction : (63 : Int64).toInt = 63 := rfl
  rw [Int64.toInt_add, fraction]
  exact Int.bmod_eq_of_le (by omega) (by omega)

theorem toInt_ceiling {bits : Int64} (room : bits.toInt ≤ 2 ^ 63 - 64) :
    (ceiling bits).toInt = (bits.toInt + 63) / 64 * 64 := by
  rw [ceiling, toInt_floor, toInt_add_fraction room]

theorem ceiling_of_lt {bits : Int64} (beyond : 2 ^ 63 - 64 < bits.toInt) :
    ceiling bits = Int64.minValue := by
  have high := bits.toInt_lt
  have fraction : (63 : Int64).toInt = 63 := rfl
  have least : Int64.minValue.toInt = -2 ^ 63 := rfl
  have wrapped : (bits + 63).toInt = bits.toInt + 63 - 2 ^ 64 := by
    rw [Int64.toInt_add, fraction, Int.bmod_def]
    omega
  rw [← Int64.toInt_inj, ceiling, toInt_floor, wrapped, least]
  omega

theorem toInt_neg (bits : Int64) :
    (-bits).toInt = if bits.toInt = -2 ^ 63 then -2 ^ 63 else -bits.toInt := by
  have low := bits.le_toInt
  have high := bits.toInt_lt
  rw [Int64.toInt_neg, Int.bmod_def]
  omega

/-- The bounds are no exceptions: the least number is its own opposite. -/
theorem ceiling_eq_neg_floor_neg (bits : Int64) : ceiling bits = -floor (-bits) := by
  have low := bits.le_toInt
  rw [← Int64.toInt_inj, toInt_neg, toInt_floor, toInt_neg]
  by_cases room : bits.toInt ≤ 2 ^ 63 - 64
  · rw [toInt_ceiling room]
    split <;> omega
  · have least : Int64.minValue.toInt = -2 ^ 63 := rfl
    have high := bits.toInt_lt
    rw [ceiling_of_lt (by omega), least, if_neg (by omega : bits.toInt ≠ -2 ^ 63),
      if_pos (by omega)]

/-! ### Multiples of 64 -/

theorem isGreatest_floor (bits : Int64) :
    IsGreatest {multiple : Int | 64 ∣ multiple ∧ multiple ≤ bits.toInt} (floor bits).toInt := by
  rw [toInt_floor]
  refine ⟨⟨Int.dvd_mul_left _ _, by omega⟩, ?_⟩
  rintro multiple ⟨divides, below⟩
  omega

theorem isLeast_ceiling {bits : Int64} (room : bits.toInt ≤ 2 ^ 63 - 64) :
    IsLeast {multiple : Int | 64 ∣ multiple ∧ bits.toInt ≤ multiple} (ceiling bits).toInt := by
  rw [toInt_ceiling room]
  refine ⟨⟨Int.dvd_mul_left _ _, by omega⟩, ?_⟩
  rintro multiple ⟨divides, above⟩
  omega

theorem floor_floor (bits : Int64) : floor (floor bits) = floor bits := by
  rw [← Int64.toInt_inj, toInt_floor, toInt_floor]
  omega

/-- Rounding up is rounding down between two changes of sign, which cancel. -/
theorem ceiling_ceiling (bits : Int64) : ceiling (ceiling bits) = ceiling bits := by
  rw [ceiling_eq_neg_floor_neg bits, ceiling_eq_neg_floor_neg, Int64.neg_neg, floor_floor]

/-! ### Bits -/

theorem toNat_and_not_fraction (word : BitVec 64) :
    (word &&& ~~~63#64).toNat = word.toNat / 64 * 64 := by
  have fraction : (word &&& 63#64).toNat = word.toNat % 64 :=
    (BitVec.toNat_and word 63#64).trans (Nat.and_two_pow_sub_one_eq_mod word.toNat 6)
  have disjoint : (word &&& ~~~63#64) &&& (word &&& 63#64) = 0 := by
    ext index
    simp only [BitVec.getElem_and, BitVec.getElem_not]
    cases word[index] <;> cases (63#64)[index] <;> simp
  have joined : (word &&& ~~~63#64) ||| (word &&& 63#64) = word := by
    ext index
    simp only [BitVec.getElem_or, BitVec.getElem_and, BitVec.getElem_not]
    cases word[index] <;> cases (63#64)[index] <;> rfl
  -- The two parts have no bit in common, so that they add up to the word.
  have sum := BitVec.toNat_add_of_and_eq_zero disjoint
  rw [BitVec.add_eq_or_of_and_eq_zero _ _ disjoint, joined, fraction] at sum
  omega

theorem floor_eq_and (bits : Int64) : floor bits = bits &&& ~~~63 := by
  have signed : bits.toInt = bits.toBitVec.toInt := rfl
  have mask : (bits &&& ~~~63).toBitVec = bits.toBitVec &&& ~~~63#64 := rfl
  have bound := bits.toBitVec.isLt
  rw [← Int64.toBitVec_inj, ← BitVec.toNat_inj, mask, toNat_and_not_fraction, floor,
    Int64.toBitVec_ofInt, BitVec.toNat_ofInt, signed, BitVec.toInt_eq_toNat_cond]
  omega

end Fixed

/-! ## On the stack -/

namespace OperandStack

def changeTop (change : Value → Value) : StackAction Unit := do
  replaceTop (change (← peek 0))

theorem changeTop_cons (change : Value → Value) (top : Value) (below : List Value)
    (maxDepth : Nat) :
    changeTop change ⟨top :: below, maxDepth⟩ = .ok () ⟨change top :: below, maxDepth⟩ := rfl

theorem changeTop_bind (first second : Value → Value) :
    (do changeTop first; changeTop second) = changeTop fun value => second (first value) := by
  funext stack
  rcases stack with ⟨values, maxDepth⟩
  cases values with
  | nil => rfl
  | cons top below => rfl

end OperandStack

open OperandStack

namespace UnaryOperation

theorem apply_eq_changeTop (operation : UnaryOperation) :
    operation.apply = changeTop operation.onValue := rfl

theorem onValue_floor_floor (value : Value) :
    floor.onValue (floor.onValue value) = floor.onValue value := by
  cases value with
  | int number => rfl
  | fixed bits => exact congrArg Value.fixed (Fixed.floor_floor bits)

theorem onValue_ceiling_ceiling (value : Value) :
    ceiling.onValue (ceiling.onValue value) = ceiling.onValue value := by
  cases value with
  | int number => rfl
  | fixed bits => exact congrArg Value.fixed (Fixed.ceiling_ceiling bits)

theorem onValue_ceiling_eq (value : Value) :
    ceiling.onValue value = neg.onValue (floor.onValue (neg.onValue value)) := by
  cases value with
  | int number => exact congrArg Value.int (Int64.neg_neg).symm
  | fixed bits => exact congrArg Value.fixed (Fixed.ceiling_eq_neg_floor_neg bits)

/-- FLOOR and CEILING make a fixed-point number the greatest multiple of 64 that is not above it and
the least that is not below it. Beyond the last multiple that is in range, CEILING gives the least
number of all. The first clears the bits of the fraction, and the second does after adding them all.
Neither changes a number that it has rounded, and CEILING is FLOOR between two changes of sign. -/
theorem apply_rounds :
    (∀ (bits : Int64) (below : List Value) (maxDepth : Nat), ∃ down up : Int64,
      floor.apply ⟨.fixed bits :: below, maxDepth⟩ = .ok () ⟨.fixed down :: below, maxDepth⟩ ∧
        ceiling.apply ⟨.fixed bits :: below, maxDepth⟩ = .ok () ⟨.fixed up :: below, maxDepth⟩ ∧
        down = bits &&& ~~~63 ∧ up = (bits + 63) &&& ~~~63 ∧
        IsGreatest {multiple : Int | 64 ∣ multiple ∧ multiple ≤ bits.toInt} down.toInt ∧
        if bits.toInt ≤ 2 ^ 63 - 64 then
          IsLeast {multiple : Int | 64 ∣ multiple ∧ bits.toInt ≤ multiple} up.toInt
        else up = Int64.minValue) ∧
      (do floor.apply; floor.apply) = floor.apply ∧
      (do ceiling.apply; ceiling.apply) = ceiling.apply ∧
      (do neg.apply; floor.apply; neg.apply) = ceiling.apply := by
  refine ⟨fun bits below maxDepth => ⟨Fixed.floor bits, Fixed.ceiling bits, rfl, rfl,
    Fixed.floor_eq_and bits, Fixed.floor_eq_and (bits + 63), Fixed.isGreatest_floor bits, ?_⟩,
    ?_, ?_, ?_⟩
  · split
    · next room => exact Fixed.isLeast_ceiling room
    · next beyond => exact Fixed.ceiling_of_lt (by omega)
  · rw [apply_eq_changeTop, changeTop_bind]
    exact congrArg changeTop (funext onValue_floor_floor)
  · rw [apply_eq_changeTop, changeTop_bind]
    exact congrArg changeTop (funext onValue_ceiling_ceiling)
  · rw [apply_eq_changeTop, apply_eq_changeTop, apply_eq_changeTop, changeTop_bind, changeTop_bind]
    exact congrArg changeTop (funext fun value => (onValue_ceiling_eq value).symm)

end UnaryOperation

end Hinting
