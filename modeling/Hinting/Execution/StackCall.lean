import Hinting.Execution.Arithmetic
import Hinting.Execution.StackOperation

/-!
What may be asked of an operand stack from outside of a program.
-/

namespace Hinting

inductive Reply
  | nothing
  | one (value : Value)
  | two (first second : Value)
deriving DecidableEq

def Reply.nothingAfter [Monad m] (action : m Unit) : m Reply := do
  action
  return .nothing

inductive StackCall
  | push (value : Value)
  | pushAll (values : List Value)
  | pop
  | popTwo
  | peek (depth : Nat)
  | replaceTop (value : Value)
  | removeAt (depth : Nat)
  | swap (left right : Nat)
  | require (needed : Nat)
  | reserve (extra : Nat)
  | clear
  | stackOperation (operation : StackOperation)
  | unaryOperation (operation : UnaryOperation)
  | binaryOperation (operation : BinaryOperation)
deriving DecidableEq

namespace StackCall

open Reply (nothingAfter)

def perform : StackCall → StackAction Reply
  | push value => nothingAfter (OperandStack.push value)
  | pushAll values => nothingAfter (OperandStack.pushAll values)
  | pop => return .one (← OperandStack.pop)
  | popTwo => do
      let (first, second) ← OperandStack.popTwo
      return .two first second
  | peek depth => return .one (← OperandStack.peek depth)
  | replaceTop value => nothingAfter (OperandStack.replaceTop value)
  | removeAt depth => return .one (← OperandStack.removeAt depth)
  | swap left right => nothingAfter (OperandStack.swap left right)
  | require needed => nothingAfter (OperandStack.require needed)
  | reserve extra => nothingAfter (OperandStack.reserve extra)
  | clear => nothingAfter OperandStack.clear
  | stackOperation operation => nothingAfter operation.apply
  | unaryOperation operation => nothingAfter operation.apply
  | binaryOperation operation => nothingAfter operation.apply

end StackCall

end Hinting
