import Hinting.Proofs.Arithmetic.Comparison
import Hinting.Proofs.Arithmetic.Product
import Hinting.Proofs.Arithmetic.Quotient
import Hinting.Proofs.Arithmetic.Rounding

/-!
The two representations of whole numbers.

A whole number may be stored as it is or in sixty-fourths. As long as operands and result have room
for their sixty-fourths, the operations make no difference between the two.
-/

namespace Hinting

/-! ## Whole numbers -/

/-- 64 bits are enough for the sixty-fourths of the number. -/
def HasRoom (number : Int) : Prop :=
  -2 ^ 63 ≤ 64 * number ∧ 64 * number < 2 ^ 63

instance (number : Int) : Decidable (HasRoom number) :=
  inferInstanceAs (Decidable (_ ∧ _))

theorem HasRoom.toInt_ofInt {number : Int} (room : HasRoom number) :
    (Int64.ofInt number).toInt = number :=
  Int64.toInt_ofInt_of_le (by have low := room.1; omega) (by have high := room.2; omega)

theorem HasRoom.toInt_scaled {number : Int} (room : HasRoom number) :
    (Int64.ofInt (64 * number)).toInt = 64 * number :=
  Int64.toInt_ofInt_of_le room.1 room.2

namespace Value

def ofWhole (number : Int) : (isFixed : Bool) → Value
  | false => .int (.ofInt number)
  | true => .fixed (.ofInt (64 * number))

variable {left right : Int}

@[simp] theorem isFixed_ofWhole (number : Int) (isFixed : Bool) :
    (ofWhole number isFixed).isFixed = isFixed := by
  cases isFixed <;> rfl

theorem sixtyFourths_ofWhole {number : Int} (room : HasRoom number) (isFixed : Bool) :
    (ofWhole number isFixed).sixtyFourths = 64 * number := by
  cases isFixed with
  | false => rw [ofWhole, sixtyFourths, room.toInt_ofInt]
  | true => rw [ofWhole, sixtyFourths, room.toInt_scaled]

theorem fixedBits_ofWhole {number : Int} (room : HasRoom number) (isFixed : Bool) :
    (ofWhole number isFixed).fixedBits = .ofInt (64 * number) := by
  rw [← Int64.toInt_inj, toInt_fixedBits, sixtyFourths_ofWhole room, room.toInt_scaled,
    saturated_of_bounds room.1 room.2]

theorem promote_ofWhole (leftRoom : HasRoom left) (rightRoom : HasRoom right)
    (leftFixed rightFixed : Bool) :
    promote (ofWhole left leftFixed) (ofWhole right rightFixed) =
      if leftFixed || rightFixed then .fixed (.ofInt (64 * left)) (.ofInt (64 * right))
      else .ints (.ofInt left) (.ofInt right) := by
  split
  · next mixed =>
      rw [promote_of_isFixed (by simpa using mixed), fixedBits_ofWhole leftRoom,
        fixedBits_ofWhole rightRoom]
  · next whole =>
      obtain ⟨rfl, rfl⟩ : leftFixed = false ∧ rightFixed = false := by simpa using whole
      rfl

theorem isTrue_ofWhole {number : Int} (room : HasRoom number) (isFixed : Bool) :
    (ofWhole number isFixed).isTrue = decide (number ≠ 0) := by
  have zero : (ofWhole number isFixed).raw = 0 ↔ number = 0 := by
    rw [← Int64.toInt_inj, Int64.toInt_zero]
    cases isFixed with
    | false => rw [ofWhole, raw, room.toInt_ofInt]
    | true =>
        rw [ofWhole, raw, room.toInt_scaled]
        omega
  rw [isTrue, Bool.eq_iff_iff]
  simp [zero]

theorem not_stopsAt_ofWhole (leftRoom : HasRoom left) (other : Value) (isFixed : Bool) :
    ¬(ofWhole left isFixed).StopsAt other := by
  cases isFixed with
  | true => exact id
  | false =>
      cases other with
      | int number => exact id
      | fixed bits =>
          have low := leftRoom.1
          have high := leftRoom.2
          rw [ofWhole, StopsAt, leftRoom.toInt_ofInt]
          omega

theorem compare_ofWhole (leftRoom : HasRoom left) (rightRoom : HasRoom right)
    (leftFixed rightFixed : Bool) :
    compare (ofWhole left leftFixed) (ofWhole right rightFixed) = Ord.compare left right := by
  rw [compare_eq, if_neg, sixtyFourths_ofWhole leftRoom, sixtyFourths_ofWhole rightRoom]
  · exact compare_congr (Int.mul_lt_mul_left (by decide)) (Int.mul_lt_mul_left (by decide))
  · rintro (stops | stops)
    · exact not_stopsAt_ofWhole leftRoom _ _ stops
    · exact not_stopsAt_ofWhole rightRoom _ _ stops

end Value

/-! ## Fixed-point results -/

namespace Fixed

variable {left right : Int}

theorem Rounds.of_multiple (whole : Int) : Rounds (64 * whole) whole where
  nearest other := by omega
  farther other same := by omega

theorem mul_scaled (leftRoom : HasRoom left) (rightRoom : HasRoom right)
    (room : HasRoom (left * right)) :
    mul (.ofInt (64 * left)) (.ofInt (64 * right)) = .ofInt (64 * (left * right)) := by
  rcases rounds_mul (.ofInt (64 * left)) (.ofInt (64 * right)) with ⟨rounded, rounds, stops⟩
  have scaled : 64 * left * (64 * right) = 64 * (64 * (left * right)) := by
    rw [Int.mul_assoc, Int.mul_left_comm left]
  rw [leftRoom.toInt_scaled, rightRoom.toInt_scaled, scaled] at rounds
  have same : rounded = 64 * (left * right) := rounds.unique (.of_multiple _)
  rw [← Int64.toInt_inj, stops, same, room.toInt_scaled, saturated_of_bounds room.1 room.2]

/-! ### Quotients -/

theorem natCast_tdiv_tdiv (number first second : Nat) :
    ((number : Int).tdiv first).tdiv second = (number : Int).tdiv (first * second) := by
  rw [← Int.natCast_mul, ← Int.ofNat_tdiv, ← Int.ofNat_tdiv, ← Int.ofNat_tdiv,
    Nat.div_div_eq_div_mul]

theorem tdiv_tdiv (number first second : Int) :
    (number.tdiv first).tdiv second = number.tdiv (first * second) := by
  rcases number.eq_nat_or_neg with ⟨number, rfl | rfl⟩ <;>
    rcases first.eq_nat_or_neg with ⟨first, rfl | rfl⟩ <;>
    rcases second.eq_nat_or_neg with ⟨second, rfl | rfl⟩ <;>
    simp only [Int.neg_tdiv, Int.tdiv_neg, Int.neg_mul, Int.mul_neg, Int.neg_neg,
      natCast_tdiv_tdiv]

theorem tdiv_scaled (left right : Int) : ((64 * left).tdiv right).tdiv 64 = left.tdiv right := by
  rw [tdiv_tdiv, Int.mul_comm right, Int.mul_tdiv_mul_of_pos _ _ (by decide)]

theorem toInt_div_scaled (leftRoom : HasRoom left) (rightRoom : HasRoom right)
    (room : HasRoom (left.tdiv right)) :
    (div (.ofInt (64 * left)) (.ofInt (64 * right))).toInt = (64 * left).tdiv right := by
  have cancelled : (64 * left * 64).tdiv (64 * right) = (64 * left).tdiv right := by
    rw [Int.mul_comm (64 * left), Int.mul_tdiv_mul_of_pos _ _ (by decide)]
  have whole := tdiv_scaled left right
  have size := Int.natAbs_tdiv_le_natAbs (64 * left) right
  rw [div, toInt_ofIntClamp, leftRoom.toInt_scaled, rightRoom.toInt_scaled, cancelled]
  generalize (64 * left).tdiv right = quotient at whole size ⊢
  rcases room with ⟨_, high⟩
  rcases leftRoom with ⟨_, _⟩
  have units : (quotient.tdiv 64).natAbs = quotient.natAbs / 64 := Int.natAbs_tdiv quotient 64
  apply saturated_of_bounds
  · omega
  · rcases Int.le_total 0 quotient with nonneg | nonpos
    · have unitsNonneg := Int.tdiv_nonneg nonneg (by decide : (0 : Int) ≤ 64)
      omega
    · omega

end Fixed

/-! ## Operations -/

variable {left right : Int}

theorem abs_ofInt {number : Int} (low : -2 ^ 63 < number) (high : number < 2 ^ 63) :
    (Int64.ofInt number).abs = .ofInt number.natAbs := by
  have stored : (Int64.ofInt number).toInt = number :=
    Int64.toInt_ofInt_of_le (Int.le_of_lt low) high
  have different : (Int64.ofInt number).toBitVec ≠ BitVec.intMin 64 := by
    intro least
    have bound : (Int64.ofInt number).toInt = -2 ^ 63 := congrArg BitVec.toInt least
    omega
  have size : (Int64.ofInt number).abs.toInt = (Int64.ofInt number).toInt.natAbs :=
    BitVec.toInt_abs_eq_natAbs_of_ne_intMin different
  rw [← Int64.toInt_inj, size, stored, Int64.toInt_ofInt_of_le (by omega) (by omega)]

section

variable {first second : Int} (firstStored : (Int64.ofInt first).toInt = first)
  (secondStored : (Int64.ofInt second).toInt = second)

include firstStored secondStored

theorem ofInt_le_ofInt_iff : Int64.ofInt first ≤ .ofInt second ↔ first ≤ second := by
  rw [Int64.le_iff_toInt_le, firstStored, secondStored]

theorem max_ofInt :
    (if Int64.ofInt first ≤ .ofInt second then Int64.ofInt second else .ofInt first) =
      .ofInt (max first second) := by
  simp only [ofInt_le_ofInt_iff firstStored secondStored, Int.max_def]
  split <;> rfl

theorem min_ofInt :
    (if Int64.ofInt first ≤ .ofInt second then Int64.ofInt first else .ofInt second) =
      .ofInt (min first second) := by
  simp only [ofInt_le_ofInt_iff firstStored secondStored, Int.min_def]
  split <;> rfl

end

namespace UnaryOperation

/-- The operations with a number as their result, each with the number that it gives for a whole
one if there are no bounds. -/
def calculations : List (UnaryOperation × (Int → Int)) :=
  [(neg, fun number => -number), (abs, fun number => number.natAbs), (floor, id), (ceiling, id)]

theorem onValue_of_calculation {operation : UnaryOperation} {exact : Int → Int}
    (member : (operation, exact) ∈ calculations) {number : Int} (room : HasRoom number)
    (resultRoom : HasRoom (exact number)) (isFixed : Bool) :
    operation.onValue (.ofWhole number isFixed) = .ofWhole (exact number) isFixed := by
  simp only [calculations, List.mem_cons, Prod.mk.injEq, List.not_mem_nil, or_false] at member
  rcases member with ⟨rfl, rfl⟩ | ⟨rfl, rfl⟩ | ⟨rfl, rfl⟩ | ⟨rfl, rfl⟩
  · cases isFixed with
    | false => exact congrArg Value.int (Int64.ofInt_neg number).symm
    | true =>
        rw [Value.ofWhole, Value.ofWhole, Int.mul_neg, Int64.ofInt_neg]
        rfl
  · have size : HasRoom (number.natAbs : Int) := resultRoom
    rcases size with ⟨_, high⟩
    cases isFixed with
    | false => exact congrArg Value.int (abs_ofInt (by omega) (by omega))
    | true =>
        have scaled : (64 * number).natAbs = 64 * (number.natAbs : Int) := by omega
        have result : (Int64.ofInt (64 * number)).abs = .ofInt (64 * number.natAbs) := by
          rw [abs_ofInt (by omega) (by omega), scaled]
        exact congrArg Value.fixed result
  · cases isFixed with
    | false => rfl
    | true =>
        have same : Fixed.floor (.ofInt (64 * number)) = .ofInt (64 * number) := by
          rw [← Int64.toInt_inj, Fixed.toInt_floor, room.toInt_scaled]
          omega
        exact congrArg Value.fixed same
  · cases isFixed with
    | false => rfl
    | true =>
        have below : (Int64.ofInt (64 * number)).toInt ≤ 2 ^ 63 - 64 := by
          have high := room.2
          rw [room.toInt_scaled]
          omega
        have same : Fixed.ceiling (.ofInt (64 * number)) = .ofInt (64 * number) := by
          rw [← Int64.toInt_inj, Fixed.toInt_ceiling below, room.toInt_scaled]
          omega
        exact congrArg Value.fixed same

theorem onValue_not {number : Int} (room : HasRoom number) (isFixed : Bool) :
    not.onValue (.ofWhole number isFixed) = .ofBool (decide (number = 0)) := by
  rw [onValue, Value.isTrue_ofWhole room]
  simp

end UnaryOperation

namespace BinaryOperation

/-- The operations with a number as their result, each with the number that it gives for whole ones
if there are no bounds. Division is not among them: its fixed-point results are not whole. -/
def calculations : List (BinaryOperation × (Int → Int → Int)) :=
  [(add, fun left right => left + right), (sub, fun left right => left - right),
    (mul, fun left right => left * right), (max, fun left right => Max.max left right),
    (min, fun left right => Min.min left right)]

/-- The operations that decide, each with what it decides of whole numbers. -/
def decisions : List (BinaryOperation × (Int → Int → Bool)) :=
  [(lt, fun left right => left < right), (lteq, fun left right => left ≤ right),
    (gt, fun left right => right < left), (gteq, fun left right => right ≤ left),
    (eq, fun left right => left = right), (neq, fun left right => left ≠ right),
    (and, fun left right => left ≠ 0 && right ≠ 0), (or, fun left right => left ≠ 0 || right ≠ 0)]

theorem ne_div_of_calculation {operation : BinaryOperation} {exact : Int → Int → Int}
    (member : (operation, exact) ∈ calculations) : operation ≠ div := by
  rintro rfl
  simp [calculations] at member

theorem ne_div_of_decision {operation : BinaryOperation} {decides : Int → Int → Bool}
    (member : (operation, decides) ∈ decisions) : operation ≠ div := by
  rintro rfl
  simp [decisions] at member

theorem onValues_of_calculation {operation : BinaryOperation} {exact : Int → Int → Int}
    (member : (operation, exact) ∈ calculations) (leftRoom : HasRoom left)
    (rightRoom : HasRoom right) (room : HasRoom (exact left right))
    (leftFixed rightFixed : Bool) :
    operation.onValues (.ofWhole left leftFixed) (.ofWhole right rightFixed) =
      .ofWhole (exact left right) (leftFixed || rightFixed) := by
  simp only [calculations, List.mem_cons, Prod.mk.injEq, List.not_mem_nil, or_false] at member
  rcases member with ⟨rfl, rfl⟩ | ⟨rfl, rfl⟩ | ⟨rfl, rfl⟩ | ⟨rfl, rfl⟩ | ⟨rfl, rfl⟩
  all_goals
    rw [onValues, Value.promote_ofWhole leftRoom rightRoom]
    cases leftFixed || rightFixed
  · exact congrArg Value.int (Int64.ofInt_add left right).symm
  · rw [Value.ofWhole, Int.mul_add, Int64.ofInt_add]
    rfl
  · exact congrArg Value.int (Int64.ofInt_sub left right).symm
  · rw [Value.ofWhole, Int.mul_sub, Int64.ofInt_sub]
    rfl
  · exact congrArg Value.int (Int64.ofInt_mul left right).symm
  · exact congrArg Value.fixed (Fixed.mul_scaled leftRoom rightRoom room)
  · exact congrArg Value.int (max_ofInt leftRoom.toInt_ofInt rightRoom.toInt_ofInt)
  · have scaled : 64 * Max.max left right = Max.max (64 * left) (64 * right) := by omega
    rw [Value.ofWhole, scaled]
    exact congrArg Value.fixed (max_ofInt leftRoom.toInt_scaled rightRoom.toInt_scaled)
  · exact congrArg Value.int (min_ofInt leftRoom.toInt_ofInt rightRoom.toInt_ofInt)
  · have scaled : 64 * Min.min left right = Min.min (64 * left) (64 * right) := by omega
    rw [Value.ofWhole, scaled]
    exact congrArg Value.fixed (min_ofInt leftRoom.toInt_scaled rightRoom.toInt_scaled)

theorem onValues_of_decision {operation : BinaryOperation} {decides : Int → Int → Bool}
    (member : (operation, decides) ∈ decisions) (leftRoom : HasRoom left)
    (rightRoom : HasRoom right) (leftFixed rightFixed : Bool) :
    operation.onValues (.ofWhole left leftFixed) (.ofWhole right rightFixed) =
      .ofBool (decides left right) := by
  have compared := Value.compare_ofWhole leftRoom rightRoom leftFixed rightFixed
  simp only [decisions, List.mem_cons, Prod.mk.injEq, List.not_mem_nil, or_false] at member
  rcases member with ⟨rfl, rfl⟩ | ⟨rfl, rfl⟩ | ⟨rfl, rfl⟩ | ⟨rfl, rfl⟩ | ⟨rfl, rfl⟩ | ⟨rfl, rfl⟩ |
    ⟨rfl, rfl⟩ | ⟨rfl, rfl⟩
  all_goals
    rw [onValues]
    apply congrArg Value.ofBool
    rw [Bool.eq_iff_iff]
    simp [compared, Value.isTrue_ofWhole leftRoom, Value.isTrue_ofWhole rightRoom,
      Ordering.isLT_iff_eq_lt, Int.compare_eq_lt, Int.isLE_compare, Ordering.isGT_iff_eq_gt,
      Int.compare_eq_gt, Int.isGE_compare]

theorem onValues_div (leftRoom : HasRoom left) (rightRoom : HasRoom right)
    (room : HasRoom (left.tdiv right)) (leftFixed rightFixed : Bool) :
    (div.onValues (.ofWhole left leftFixed) (.ofWhole right rightFixed)).isFixed =
        (leftFixed || rightFixed) ∧
      (div.onValues (.ofWhole left leftFixed) (.ofWhole right rightFixed)).integerPart.toInt =
        left.tdiv right := by
  rw [onValues, Value.promote_ofWhole leftRoom rightRoom]
  cases leftFixed || rightFixed with
  | false =>
      refine ⟨rfl, ?_⟩
      change (Int64.ofInt left / .ofInt right).toInt = _
      rw [Int64.toInt_div, leftRoom.toInt_ofInt, rightRoom.toInt_ofInt]
      exact Int64.toInt_ofInt.symm.trans room.toInt_ofInt
  | true =>
      refine ⟨rfl, ?_⟩
      rw [Value.toInt_integerPart]
      change (Fixed.div _ _).toInt.tdiv 64 = _
      rw [Fixed.toInt_div_scaled leftRoom rightRoom room, Fixed.tdiv_scaled]

example : ∀ operation ∈ all, operation = div ∨
    operation ∈ calculations.map Prod.fst ++ decisions.map Prod.fst := by decide

end BinaryOperation

/-- Whole numbers with room for their sixty-fourths are calculated with exactly, if the result has
room as well, and it is a fixed-point number as soon as one of the operands is. A quotient may then
have a fraction, and has the whole units of the exact one. What is decided does not depend on how
the operands are stored. -/
theorem apply_ofWhole (leftRoom : HasRoom left) (leftFixed : Bool) (below : List Value)
    (maxDepth : Nat) :
    (∀ right rightFixed, HasRoom right → below.length + 2 ≤ maxDepth →
      let two : OperandStack :=
        ⟨.ofWhole right rightFixed :: .ofWhole left leftFixed :: below, maxDepth⟩
      (∀ operation exact, (operation, exact) ∈ BinaryOperation.calculations →
          HasRoom (exact left right) →
          operation.apply two =
            .ok () ⟨.ofWhole (exact left right) (leftFixed || rightFixed) :: below, maxDepth⟩) ∧
        (right ≠ 0 → HasRoom (left.tdiv right) →
          ∃ quotient, BinaryOperation.div.apply two = .ok () ⟨quotient :: below, maxDepth⟩ ∧
            quotient.isFixed = (leftFixed || rightFixed) ∧
            quotient.integerPart.toInt = left.tdiv right) ∧
        ∀ operation decides, (operation, decides) ∈ BinaryOperation.decisions →
          operation.apply two = .ok () ⟨.ofBool (decides left right) :: below, maxDepth⟩) ∧
      let one : OperandStack := ⟨.ofWhole left leftFixed :: below, maxDepth⟩
      (∀ operation exact, (operation, exact) ∈ UnaryOperation.calculations →
          HasRoom (exact left) →
          operation.apply one = .ok () ⟨.ofWhole (exact left) leftFixed :: below, maxDepth⟩) ∧
        UnaryOperation.not.apply one = .ok () ⟨.ofBool (decide (left = 0)) :: below, maxDepth⟩ := by
  constructor
  · intro right rightFixed rightRoom fits two
    refine ⟨fun operation exact member room => ?_, fun nonzero room => ?_,
      fun operation decides member => ?_⟩
    · have defined := BinaryOperation.ne_div_of_calculation member
      rw [BinaryOperation.apply_of_values fits fun divides => absurd divides defined,
        BinaryOperation.onValues_of_calculation member leftRoom rightRoom room]
    · have divisor : (Value.ofWhole right rightFixed).isTrue = true := by
        rw [Value.isTrue_ofWhole rightRoom, decide_eq_true nonzero]
      exact ⟨_, BinaryOperation.apply_of_values fits fun _ => bne_iff_ne.mp divisor,
        BinaryOperation.onValues_div leftRoom rightRoom room leftFixed rightFixed⟩
    · have defined := BinaryOperation.ne_div_of_decision member
      rw [BinaryOperation.apply_of_values fits fun divides => absurd divides defined,
        BinaryOperation.onValues_of_decision member leftRoom rightRoom]
  · intro one
    refine ⟨fun operation exact member room => ?_, ?_⟩
    · rw [UnaryOperation.apply_eq_changeTop, OperandStack.changeTop_cons,
        UnaryOperation.onValue_of_calculation member leftRoom room]
    · rw [UnaryOperation.apply_eq_changeTop, OperandStack.changeTop_cons,
        UnaryOperation.onValue_not leftRoom]

/-- The least whole number with room for its sixty-fourths is the least fixed-point number. -/
theorem apply_ofWhole_least :
    HasRoom (-2 ^ 57) ∧ HasRoom 3 ∧ HasRoom (-2 ^ 57 + 3) ∧ HasRoom (Int.tdiv (-2 ^ 57) 3) ∧
      BinaryOperation.add.apply ⟨[.int 3, .fixed Int64.minValue], 2⟩ =
        .ok () ⟨[.fixed (.ofInt (64 * (-2 ^ 57 + 3)))], 2⟩ ∧
      (∃ quotient, BinaryOperation.div.apply ⟨[.int 3, .fixed Int64.minValue], 2⟩ =
          .ok () ⟨[quotient], 2⟩ ∧
        quotient.isFixed = true ∧ quotient.integerPart.toInt = Int.tdiv (-2 ^ 57) 3) ∧
      UnaryOperation.not.apply ⟨[.fixed Int64.minValue], 1⟩ = .ok () ⟨[.int 0], 1⟩ := by
  have leftRoom : HasRoom (-2 ^ 57) := by decide
  have rightRoom : HasRoom 3 := by decide
  have sumRoom : HasRoom (-2 ^ 57 + 3) := by decide
  have quotientRoom : HasRoom (Int.tdiv (-2 ^ 57) 3) := by decide
  have binary := (apply_ofWhole leftRoom true [] 2).1 3 false rightRoom (Nat.le_refl 2)
  have unary := (apply_ofWhole leftRoom true [] 1).2
  have least : Value.ofWhole (-2 ^ 57) true = .fixed Int64.minValue := by decide
  rw [least] at binary unary
  exact ⟨leftRoom, rightRoom, sumRoom, quotientRoom, binary.1 .add _ (.head _) sumRoom,
    binary.2.1 (by decide) quotientRoom, unary.2⟩

end Hinting
