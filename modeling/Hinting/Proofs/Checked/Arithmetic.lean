import Hinting.Proofs.Arithmetic.Operands
import Hinting.Proofs.Checked.Stack

/-!
Arithmetic with 128-bit numbers in between.

Products and quotients in sixty-fourths are calculated with numbers of 128 bits, which are to be
large enough, and nothing is divided by zero. Operations are told apart by the number of their
operands first, and no operation is carried out with another number of them.
-/

namespace Hinting.Checked

/-! ## Numbers -/

def int128? (number : Int) : Option Int :=
  if -2 ^ 127 ≤ number ∧ number < 2 ^ 127 then some number else none

def divide128? (left right : Int) : Option Int :=
  if right = 0 then none else int128? (left.tdiv right)

/-- Quotients of 64 bits wrap around. -/
def divide64? (left right : Int64) : Option Int64 :=
  if right = 0 then none else some (left / right)

def fixedMul? (left right : Int64) : Option Int64 := do
  let product ← int128? (left.toInt * right.toInt)
  let rounded ← int128? (if product < 0 then product - 32 else product + 32)
  return .ofIntClamp (← divide128? rounded 64)

def fixedDiv? (left right : Int64) : Option Int64 := do
  let scaled ← int128? (left.toInt * 64)
  return .ofIntClamp (← divide128? scaled right.toInt)

theorem int128?_of_bounds {number : Int} (low : -2 ^ 127 ≤ number) (high : number < 2 ^ 127) :
    int128? number = some number :=
  if_pos ⟨low, high⟩

theorem product_bounds (left right : Int64) :
    -2 ^ 126 ≤ left.toInt * right.toInt ∧ left.toInt * right.toInt ≤ 2 ^ 126 := by
  have leftLow := left.le_toInt
  have leftHigh := left.toInt_lt
  have rightLow := right.le_toInt
  have rightHigh := right.toInt_lt
  have magnitude : (left.toInt * right.toInt).natAbs ≤ 2 ^ 63 * 2 ^ 63 := by
    rw [Int.natAbs_mul]
    exact Nat.mul_le_mul (by omega) (by omega)
  omega

theorem tdiv_bounds {number : Int} (bounds : -2 ^ 126 - 32 ≤ number ∧ number ≤ 2 ^ 126 + 32)
    (divisor : Int) :
    -2 ^ 127 ≤ number.tdiv divisor ∧ number.tdiv divisor < 2 ^ 127 := by
  have magnitude : (number.tdiv divisor).natAbs ≤ number.natAbs := by
    rw [Int.natAbs_tdiv]
    exact Nat.div_le_self _ _
  omega

theorem divide128?_of_bounds {number divisor : Int}
    (bounds : -2 ^ 126 - 32 ≤ number ∧ number ≤ 2 ^ 126 + 32) (nonzero : divisor ≠ 0) :
    divide128? number divisor = some (number.tdiv divisor) := by
  have quotient := tdiv_bounds bounds divisor
  rw [divide128?, if_neg nonzero, int128?_of_bounds quotient.1 quotient.2]

theorem fixedMul?_eq (left right : Int64) : fixedMul? left right = some (Fixed.mul left right) := by
  have bounds := product_bounds left right
  rw [fixedMul?, Fixed.mul, int128?_of_bounds (by omega) (by omega), Option.bind_eq_bind,
    Option.bind_some]
  split
  · rw [int128?_of_bounds (by omega) (by omega), Option.bind_some,
      divide128?_of_bounds (by omega) (by decide)]
    rfl
  · rw [int128?_of_bounds (by omega) (by omega), Option.bind_some,
      divide128?_of_bounds (by omega) (by decide)]
    rfl

theorem fixedDiv?_eq (left : Int64) {right : Int64} (nonzero : right ≠ 0) :
    fixedDiv? left right = some (Fixed.div left right) := by
  have low := left.le_toInt
  have high := left.toInt_lt
  have divisor : right.toInt ≠ 0 := fun zero => nonzero (Int64.toInt_inj.mp zero)
  rw [fixedDiv?, Fixed.div, int128?_of_bounds (by omega) (by omega), Option.bind_eq_bind,
    Option.bind_some, divide128?_of_bounds (by omega) divisor]
  rfl

/-! ## Operations -/

inductive ArithmeticOperation
  | unary (operation : UnaryOperation)
  | binary (operation : BinaryOperation)
deriving DecidableEq

namespace ArithmeticOperation

def isUnary : ArithmeticOperation → Bool
  | .unary .not | .unary .abs | .unary .neg | .unary .floor | .unary .ceiling => true
  | _ => false

def onValue? : ArithmeticOperation → Value → Option Value
  | .unary operation, value => some (operation.onValue value)
  | .binary _, _ => none

def onValues? (left right : Value) : ArithmeticOperation → Option Value
  | .binary .mul =>
      match Value.promote left right with
      | .ints left right => some (.int (left * right))
      | .fixed left right => (fixedMul? left right).map .fixed
  | .binary .div =>
      match Value.promote left right with
      | .ints left right => (divide64? left right).map .int
      | .fixed left right => (fixedDiv? left right).map .fixed
  | .binary operation => some (operation.onValues left right)
  | .unary _ => none

def apply (operation : ArithmeticOperation) : Checked Fault OperandStack Unit :=
  if operation.isUnary then do
    let value ← peek 0
    total (OperandStack.replaceTop (← defined (operation.onValue? value)))
  else do
    total (OperandStack.require 2)
    if operation = .binary .div && !(← peek 0).isTrue then throw (.failure .divisionByZero)
    let (left, right) ← total OperandStack.popTwo
    total (OperandStack.push (← defined (operation.onValues? left right)))

theorem apply_unary (operation : UnaryOperation) :
    apply (.unary operation) = total operation.apply := by
  have unary : isUnary (.unary operation) = true := by cases operation <;> rfl
  rw [apply, if_pos unary, UnaryOperation.apply, total_bind, peek_eq]
  rfl

theorem onValues?_eq {operation : BinaryOperation} {left right : Value}
    (divisible : operation = .div → right.isTrue = true) :
    onValues? left right (.binary operation) = some (operation.onValues left right) := by
  cases operation with
  | mul =>
      rw [onValues?, BinaryOperation.onValues]
      cases Value.promote left right with
      | ints left right => rfl
      | fixed left right =>
          dsimp only
          rw [fixedMul?_eq]
          rfl
  | div =>
      -- The divisor has been tested as it was stored, and is divided by as it is promoted.
      have nonzero : right.raw ≠ 0 := bne_iff_ne.mp (divisible rfl)
      have bits := Value.fixedBits_ne_zero nonzero
      rw [onValues?, BinaryOperation.onValues]
      cases promoted : Value.promote left right with
      | ints first second =>
          have same : second = right.raw := by
            cases left <;> cases right <;> cases promoted
            rfl
          have divisor : second ≠ 0 := same ▸ nonzero
          dsimp only
          rw [divide64?, if_neg divisor]
          rfl
      | fixed first second =>
          have same : second = right.fixedBits := by
            cases left <;> cases right <;> cases promoted <;> rfl
          dsimp only
          rw [fixedDiv?_eq first (same ▸ bits)]
          rfl
  | _ => rfl

theorem apply_binary (operation : BinaryOperation) :
    apply (.binary operation) = total operation.apply := by
  have binary : ¬isUnary (.binary operation) = true := Bool.false_ne_true
  rw [apply, if_neg binary, BinaryOperation.apply, total_bind, peek_eq]
  refine require_bind_congr fun stack enough => ?_
  rcases held : stack.values with _ | ⟨right, _ | ⟨left, below⟩⟩
  · simp [OperandStack.size, held] at enough
  · simp [OperandStack.size, held] at enough
  have peeked : OperandStack.peek 0 stack = .ok right stack := by
    rw [OperandStack.peek, held]
    rfl
  have popped : OperandStack.popTwo stack = .ok (left, right) { stack with values := below } := by
    rw [OperandStack.popTwo, held]
  rw [total_bind, bind_apply_of_ok (total_of_ok peeked), bind_apply_of_ok (total_of_ok peeked)]
  simp only [ArithmeticOperation.binary.injEq]
  by_cases refuses : (decide (operation = .div) && !right.isTrue) = true
  · rw [if_pos refuses, if_pos refuses]
    rfl
  · have divisible : operation = .div → right.isTrue = true := by
      rintro rfl
      simpa using refuses
    rw [if_neg refuses, if_neg refuses, total_bind, bind_apply_of_ok (total_of_ok popped),
      bind_apply_of_ok (total_of_ok popped), onValues?_eq divisible, defined_some, pure_bind]

end ArithmeticOperation

end Hinting.Checked
