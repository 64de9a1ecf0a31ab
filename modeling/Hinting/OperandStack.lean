import Hinting.Value

/-!
The operand stack of a hinting program.

Every operation checks what it needs before it changes anything, so an operation
that fails leaves the stack as it was.
-/

namespace Hinting

/-- `values` is ordered from the top down. -/
structure OperandStack where
  values : List Value
  maxDepth : Nat
deriving DecidableEq

/-- A computation on a stack. The stack that a failure leaves is part of the
result. -/
abbrev StackAction := EStateM Fault OperandStack

namespace OperandStack

def empty (maxDepth : Nat) : OperandStack := ⟨[], maxDepth⟩

def size (stack : OperandStack) : Nat := stack.values.length

def isEmpty (stack : OperandStack) : Bool := stack.values.isEmpty

/-- The values in the order in which they were pushed. -/
def toList (stack : OperandStack) : List Value := stack.values.reverse

def require (needed : Nat) : StackAction Unit := fun stack =>
  if needed ≤ stack.size then .ok () stack
  else .error (.stackUnderflow needed stack.size) stack

def reserve (extra : Nat) : StackAction Unit := fun stack =>
  if stack.size + extra ≤ stack.maxDepth then .ok () stack
  else .error (.stackOverflow stack.maxDepth) stack

/-- Push all values, the first of them lowest, or none. -/
def pushAll (values : List Value) : StackAction Unit := do
  reserve values.length
  modify fun stack => { stack with values := values.reverse ++ stack.values }

def push (value : Value) : StackAction Unit := do
  reserve 1
  modify fun stack => { stack with values := value :: stack.values }

def pop : StackAction Value := fun stack =>
  match stack.values with
  | top :: below => .ok top { stack with values := below }
  | [] => .error (.stackUnderflow 1 0) stack

/-- The two topmost values in the order in which they were pushed. -/
def popTwo : StackAction (Value × Value) := fun stack =>
  match stack.values with
  | second :: first :: below => .ok (first, second) { stack with values := below }
  | _ => .error (.stackUnderflow 2 stack.size) stack

def peek (depth : Nat) : StackAction Value := fun stack =>
  match stack.values[depth]? with
  | some value => .ok value stack
  | none => .error (.stackUnderflow (depth + 1) stack.size) stack

def replaceTop (value : Value) : StackAction Unit := fun stack =>
  match stack.values with
  | _ :: below => .ok () { stack with values := value :: below }
  | [] => .error (.stackUnderflow 1 0) stack

def removeAt (depth : Nat) : StackAction Value := fun stack =>
  match stack.values[depth]? with
  | some value => .ok value { stack with values := stack.values.eraseIdx depth }
  | none => .error (.stackUnderflow (depth + 1) stack.size) stack

def swap (left right : Nat) : StackAction Unit := fun stack =>
  match stack.values[left]?, stack.values[right]? with
  | some leftValue, some rightValue =>
      .ok () { stack with values := (stack.values.set left rightValue).set right leftValue }
  | _, _ => .error (.stackUnderflow (max left right + 1) stack.size) stack

def clear : StackAction Unit :=
  modify fun stack => { stack with values := [] }

example : (do push (.int 1); push (.int 2); pop : StackAction Value) (empty 2) =
    .ok (.int 2) ⟨[.int 1], 2⟩ := rfl

end OperandStack

end Hinting
