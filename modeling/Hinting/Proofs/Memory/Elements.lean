import Hinting.Proofs.Memory.Atomicity
import Mathlib.Algebra.Group.Nat.Defs

/-!
Elements of the stack by their numbers.

CINDEX and MINDEX take a number from the stack and count from one at the value below it. DUP, SWAP
and ROLL are these operations for the first three numbers.
-/

namespace Hinting.StackOperation

open OperandStack

variable {number element : Value} {front behind below : List Value} {maxDepth : Nat}

/-! ## Numbers -/

theorem elementDepth_cons (number : Value) (below : List Value) (maxDepth : Nat) :
    elementDepth ⟨number :: below, maxDepth⟩ =
      if number.integerPart < 1 then
        .error (.invalidIndex .stackDepth number.integerPart) ⟨number :: below, maxDepth⟩
      else if below.length < number.integerPart.toInt.toNat then
        .error (.stackUnderflow (number.integerPart.toInt.toNat + 1) (below.length + 1))
          ⟨number :: below, maxDepth⟩
      else .ok (number.integerPart.toInt.toNat - 1) ⟨number :: below, maxDepth⟩ := by
  have peeked : peek 0 ⟨number :: below, maxDepth⟩ = .ok number ⟨number :: below, maxDepth⟩ := rfl
  rw [elementDepth, bind_apply_of_ok peeked, get_bind_apply]
  simp only [size, List.length_cons, Nat.add_sub_cancel]
  split
  · rfl
  · by_cases missing : below.length < number.integerPart.toInt.toNat
    · rw [if_pos missing, if_pos missing]
      rfl
    · rw [if_neg missing, if_neg missing]
      rfl

theorem elementDepth_low (low : number.integerPart.toInt < 1) :
    elementDepth ⟨number :: below, maxDepth⟩ =
      .error (.invalidIndex .stackDepth number.integerPart) ⟨number :: below, maxDepth⟩ := by
  have rejected : number.integerPart < 1 := Int64.lt_iff_toInt_lt.mpr low
  rw [elementDepth_cons, if_pos rejected]

/-- No number is so great that the count of the values it needs would not fit 64 bits. -/
theorem elementDepth_missing (missing : below.length < number.integerPart.toInt) :
    elementDepth ⟨number :: below, maxDepth⟩ =
      .error
        (.stackUnderflow (min (number.integerPart.toInt.toNat + 1) (2 ^ 64 - 1)) (below.length + 1))
        ⟨number :: below, maxDepth⟩ := by
  have bound := number.integerPart.toInt_lt
  have accepted : ¬number.integerPart < 1 := by
    rw [Int64.lt_iff_toInt_lt]
    have one : (1 : Int64).toInt = 1 := rfl
    omega
  have saturated : min (number.integerPart.toInt.toNat + 1) (2 ^ 64 - 1) =
      number.integerPart.toInt.toNat + 1 := by omega
  rw [elementDepth_cons, if_neg accepted, if_pos (by omega), saturated]

theorem elementDepth_counted (counted : number.integerPart.toInt = front.length + 1) :
    elementDepth ⟨number :: (front ++ element :: behind), maxDepth⟩ =
      .ok front.length ⟨number :: (front ++ element :: behind), maxDepth⟩ := by
  have accepted : ¬number.integerPart < 1 := by
    rw [Int64.lt_iff_toInt_lt]
    have one : (1 : Int64).toInt = 1 := rfl
    omega
  have present : ¬(front ++ element :: behind).length < number.integerPart.toInt.toNat := by
    rw [List.length_append, List.length_cons]
    omega
  have depth : number.integerPart.toInt.toNat - 1 = front.length := by omega
  rw [elementDepth_cons, if_neg accepted, if_neg present, depth]

/-! ## Any element -/

def numbered : List StackOperation := [cindex, mindex]

theorem apply_of_elementDepth_error {operation : StackOperation} {failure : Fault}
    {stack after : OperandStack} (member : operation ∈ numbered)
    (fails : elementDepth stack = .error failure after) :
    operation.apply stack = .error failure after := by
  simp only [numbered, List.mem_cons, List.not_mem_nil, or_false] at member
  rcases member with rfl | rfl <;> exact bind_apply_of_error fails

section

variable (counted : number.integerPart.toInt = front.length + 1)
  (room : (front ++ element :: behind).length + 1 ≤ maxDepth)

include counted room

theorem cindex_apply :
    cindex.apply ⟨number :: (front ++ element :: behind), maxDepth⟩ =
      .ok () ⟨element :: (front ++ element :: behind), maxDepth⟩ := by
  have popped : OperandStack.pop ⟨number :: (front ++ element :: behind), maxDepth⟩ =
      .ok number ⟨front ++ element :: behind, maxDepth⟩ := rfl
  have peeked : peek front.length ⟨front ++ element :: behind, maxDepth⟩ =
      .ok element ⟨front ++ element :: behind, maxDepth⟩ := by
    rw [peek, List.getElem?_append_right (Nat.le_refl _), Nat.sub_self]
    rfl
  rw [apply, bind_apply_of_ok (elementDepth_counted counted), bind_apply_of_ok popped,
    bind_apply_of_ok peeked, push_apply]
  exact if_pos room

theorem mindex_apply :
    mindex.apply ⟨number :: (front ++ element :: behind), maxDepth⟩ =
      .ok () ⟨element :: (front ++ behind), maxDepth⟩ := by
  have popped : OperandStack.pop ⟨number :: (front ++ element :: behind), maxDepth⟩ =
      .ok number ⟨front ++ element :: behind, maxDepth⟩ := rfl
  have removed : removeAt front.length ⟨front ++ element :: behind, maxDepth⟩ =
      .ok element ⟨front ++ behind, maxDepth⟩ := by
    rw [removeAt, List.getElem?_append_right (Nat.le_refl _), Nat.sub_self,
      List.eraseIdx_append_of_length_le (Nat.le_refl _), Nat.sub_self]
    rfl
  have fits : (front ++ behind).length + 1 ≤ maxDepth := by
    simp only [List.length_append, List.length_cons] at room ⊢
    omega
  rw [apply, bind_apply_of_ok (elementDepth_counted counted), bind_apply_of_ok popped,
    bind_apply_of_ok removed, push_apply]
  exact if_pos fits

end

theorem exists_split_of_le {count : Int} (positive : 1 ≤ count) (present : count ≤ below.length) :
    ∃ front element behind, below = front ++ element :: behind ∧
      count = (front.length : Int) + 1 := by
  have inside : count.toNat - 1 < below.length := by omega
  refine ⟨below.take (count.toNat - 1), below[count.toNat - 1], below.drop (count.toNat - 1 + 1),
    ?_, ?_⟩
  · rw [List.getElem_cons_drop, List.take_append_drop]
  · rw [List.length_take]
    omega

/-! ## Fixed numbers -/

/-- Operations for elements of a fixed number, each behind the number and the operation that takes
it. -/
def dedicated : List (Nat × StackOperation × StackOperation) :=
  [(3, mindex, roll), (2, mindex, swap), (1, cindex, dup)]

theorem numbered_of_dedicated {count : Nat} {indexed operation : StackOperation}
    (member : (count, indexed, operation) ∈ dedicated) : count ≤ 3 ∧ indexed ∈ numbered := by
  simp only [dedicated, List.mem_cons, Prod.mk.injEq, List.not_mem_nil, or_false] at member
  rcases member with ⟨rfl, rfl, -⟩ | ⟨rfl, rfl, -⟩ | ⟨rfl, rfl, -⟩ <;> decide

theorem push_then (room : below.length + 1 ≤ maxDepth) (number : Value)
    (operation : StackOperation) :
    (do OperandStack.push number; operation.apply) ⟨below, maxDepth⟩ =
      operation.apply ⟨number :: below, maxDepth⟩ := by
  have pushed : OperandStack.push number ⟨below, maxDepth⟩ = .ok () ⟨number :: below, maxDepth⟩ := by
    rw [push_apply]
    exact if_pos room
  rw [bind_apply_of_ok pushed]

theorem roll_cons (first second third : Value) (room : below.length + 3 ≤ maxDepth) :
    roll.apply ⟨first :: second :: third :: below, maxDepth⟩ =
      .ok () ⟨third :: first :: second :: below, maxDepth⟩ := by
  have removed : removeAt 2 ⟨first :: second :: third :: below, maxDepth⟩ =
      .ok third ⟨first :: second :: below, maxDepth⟩ := rfl
  rw [apply, bind_apply_of_ok removed, push_apply]
  exact if_pos room

theorem swap_cons (first second : Value) (below : List Value) (maxDepth : Nat) :
    swap.apply ⟨first :: second :: below, maxDepth⟩ =
      .ok () ⟨second :: first :: below, maxDepth⟩ := rfl

theorem dup_cons (top : Value) (room : below.length + 2 ≤ maxDepth) :
    dup.apply ⟨top :: below, maxDepth⟩ = .ok () ⟨top :: top :: below, maxDepth⟩ := by
  have peeked : peek 0 ⟨top :: below, maxDepth⟩ = .ok top ⟨top :: below, maxDepth⟩ := rfl
  rw [apply, bind_apply_of_ok peeked, push_apply]
  exact if_pos room

theorem dedicated_apply {count : Nat} {indexed operation : StackOperation}
    (member : (count, indexed, operation) ∈ dedicated) (room : below.length + 1 ≤ maxDepth)
    (number : Value) (counted : number.integerPart.toInt = count) (present : count ≤ below.length) :
    ∃ after, indexed.apply ⟨number :: below, maxDepth⟩ = .ok () after ∧
      operation.apply ⟨below, maxDepth⟩ = .ok () after := by
  simp only [dedicated, List.mem_cons, Prod.mk.injEq, List.not_mem_nil, or_false] at member
  rcases member with ⟨rfl, rfl, rfl⟩ | ⟨rfl, rfl, rfl⟩ | ⟨rfl, rfl, rfl⟩
  · rcases below with _ | ⟨first, _ | ⟨second, _ | ⟨third, below⟩⟩⟩
    · simp at present
    · simp at present
    · simp at present
    · have room' : ([first, second] ++ third :: below).length + 1 ≤ maxDepth := room
      exact ⟨_, mindex_apply counted room', roll_cons first second third (by simp at room; omega)⟩
  · rcases below with _ | ⟨first, _ | ⟨second, below⟩⟩
    · simp at present
    · simp at present
    · have room' : ([first] ++ second :: below).length + 1 ≤ maxDepth := room
      exact ⟨_, mindex_apply counted room', swap_cons first second below maxDepth⟩
  · rcases below with _ | ⟨top, below⟩
    · simp at present
    · have room' : ([] ++ top :: below).length + 1 ≤ maxDepth := room
      exact ⟨_, cindex_apply counted room', dup_cons top room⟩

theorem dedicated_missing {count : Nat} {indexed operation : StackOperation}
    (member : (count, indexed, operation) ∈ dedicated) (missing : below.length < count) :
    operation.apply ⟨below, maxDepth⟩ =
      .error (.stackUnderflow count below.length) ⟨below, maxDepth⟩ := by
  simp only [dedicated, List.mem_cons, Prod.mk.injEq, List.not_mem_nil, or_false] at member
  rcases member with ⟨rfl, -, rfl⟩ | ⟨rfl, -, rfl⟩ | ⟨rfl, -, rfl⟩
  · rcases below with _ | ⟨first, _ | ⟨second, _ | ⟨third, below⟩⟩⟩
    · rfl
    · rfl
    · rfl
    · exact absurd missing (Nat.not_lt.mpr (Nat.le_add_left 3 below.length))
  · rcases below with _ | ⟨first, _ | ⟨second, below⟩⟩
    · rfl
    · rfl
    · exact absurd missing (Nat.not_lt.mpr (Nat.le_add_left 2 below.length))
  · rcases below with _ | ⟨top, below⟩
    · rfl
    · exact absurd missing (Nat.not_lt.mpr (Nat.le_add_left 1 below.length))

theorem roll_three_times (present : 3 ≤ below.length) (room : below.length ≤ maxDepth) :
    (do roll.apply; roll.apply; roll.apply) ⟨below, maxDepth⟩ = .ok () ⟨below, maxDepth⟩ := by
  rcases below with _ | ⟨first, _ | ⟨second, _ | ⟨third, below⟩⟩⟩
  · simp at present
  · simp at present
  · simp at present
  · rw [bind_apply_of_ok (roll_cons first second third room),
      bind_apply_of_ok (roll_cons third first second room), roll_cons second third first room]

theorem swap_twice (present : 2 ≤ below.length) (maxDepth : Nat) :
    (do swap.apply; swap.apply) ⟨below, maxDepth⟩ = .ok () ⟨below, maxDepth⟩ := by
  rcases below with _ | ⟨first, _ | ⟨second, below⟩⟩
  · simp at present
  · simp at present
  · rw [bind_apply_of_ok (swap_cons first second below maxDepth), swap_cons]

/-- On a stack with room for a number, a number below one is an invalid index for CINDEX and MINDEX
and one beyond the values below it an underflow, and both leave the stack. For any other number
CINDEX copies the element and MINDEX moves it to the top, in the place of the number. With a fixed
number they do what ROLL, SWAP and DUP do, and there are too few values for both or for neither.
ROLL comes round after three times and SWAP after two. -/
theorem numbered_apply (room : below.length + 1 ≤ maxDepth) :
    (∀ number : Value,
      (number.integerPart.toInt < 1 → ∀ operation ∈ numbered,
        operation.apply ⟨number :: below, maxDepth⟩ =
          .error (.invalidIndex .stackDepth number.integerPart) ⟨number :: below, maxDepth⟩) ∧
      (below.length < number.integerPart.toInt → ∀ operation ∈ numbered,
        operation.apply ⟨number :: below, maxDepth⟩ =
          .error
            (.stackUnderflow (min (number.integerPart.toInt.toNat + 1) (2 ^ 64 - 1))
              (below.length + 1))
            ⟨number :: below, maxDepth⟩) ∧
      (1 ≤ number.integerPart.toInt → number.integerPart.toInt ≤ below.length →
        ∃ front element behind, below = front ++ element :: behind ∧
          number.integerPart.toInt = (front.length : Int) + 1 ∧
          cindex.apply ⟨number :: below, maxDepth⟩ = .ok () ⟨element :: below, maxDepth⟩ ∧
          mindex.apply ⟨number :: below, maxDepth⟩ =
            .ok () ⟨element :: (front ++ behind), maxDepth⟩)) ∧
      (∀ count indexed operation, (count, indexed, operation) ∈ dedicated →
        ∀ number : Value, number.integerPart.toInt = count →
          if count ≤ below.length then
            ∃ after,
              (do OperandStack.push number; indexed.apply) ⟨below, maxDepth⟩ = .ok () after ∧
                operation.apply ⟨below, maxDepth⟩ = .ok () after
          else
            (do OperandStack.push number; indexed.apply) ⟨below, maxDepth⟩ =
                .error (.stackUnderflow (count + 1) (below.length + 1))
                  ⟨number :: below, maxDepth⟩ ∧
              operation.apply ⟨below, maxDepth⟩ =
                .error (.stackUnderflow count below.length) ⟨below, maxDepth⟩) ∧
      (3 ≤ below.length →
        (do roll.apply; roll.apply; roll.apply) ⟨below, maxDepth⟩ = .ok () ⟨below, maxDepth⟩) ∧
      (2 ≤ below.length →
        (do swap.apply; swap.apply) ⟨below, maxDepth⟩ = .ok () ⟨below, maxDepth⟩) := by
  refine ⟨fun number => ⟨fun low operation member => ?_, fun missing operation member => ?_,
    fun positive present => ?_⟩, fun count indexed operation member number counted => ?_,
    fun present => roll_three_times present (Nat.le_of_succ_le room),
    fun present => swap_twice present maxDepth⟩
  · exact apply_of_elementDepth_error member (elementDepth_low low)
  · exact apply_of_elementDepth_error member (elementDepth_missing missing)
  · rcases exists_split_of_le positive present with ⟨front, element, behind, rfl, counted⟩
    exact ⟨front, element, behind, rfl, counted, cindex_apply counted room,
      mindex_apply counted room⟩
  · rw [push_then room]
    split
    · next present => exact dedicated_apply member room number counted present
    · next missing =>
        have few : below.length < count := Nat.lt_of_not_le missing
        rcases numbered_of_dedicated member with ⟨small, takesNumber⟩
        have beyond : (below.length : Int) < number.integerPart.toInt := by omega
        have needed : min (number.integerPart.toInt.toNat + 1) (2 ^ 64 - 1) = count + 1 := by omega
        refine ⟨?_, dedicated_missing member few⟩
        rw [apply_of_elementDepth_error takesNumber (elementDepth_missing beyond), needed]

/-- The stack is full. The number has a fraction, which does not count. -/
theorem numbered_apply_full :
    let stack : OperandStack := ⟨[.fixed 159, .int 7, .fixed (-1)], 3⟩
    1 ≤ (Value.fixed 159).integerPart.toInt ∧ (Value.fixed 159).integerPart.toInt ≤ 2 ∧
      cindex.apply stack = .ok () ⟨[.fixed (-1), .int 7, .fixed (-1)], 3⟩ ∧
      mindex.apply stack = .ok () ⟨[.fixed (-1), .int 7], 3⟩ := by
  intro stack
  have room : [Value.int 7, .fixed (-1)].length + 1 ≤ 3 := Nat.le_refl 3
  have positive : 1 ≤ (Value.fixed 159).integerPart.toInt := by decide
  have present : (Value.fixed 159).integerPart.toInt ≤ 2 := by decide
  rcases ((numbered_apply room).1 (.fixed 159)).2.2 positive present with
    ⟨front, element, behind, split, counted, copied, moved⟩
  have two : (Value.fixed 159).integerPart.toInt = 2 := by decide
  rcases front with _ | ⟨first, _ | ⟨second, front⟩⟩
  · rw [two] at counted
    cases counted
  · cases split
    exact ⟨positive, present, copied, moved⟩
  · rw [two] at counted
    simp only [List.length_cons] at counted
    omega

end Hinting.StackOperation
