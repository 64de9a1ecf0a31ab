/-!
The instructions of hinting programs.

A push carries its literals. Every other instruction is a bare operation whose
operands come from the stack, and its opcode is all there is to it.
-/

namespace Hinting

/-! ## Bare operations -/

inductive StackOperation
  | dup
  | pop
  | clear
  | swap
  | depth
  | cindex
  | mindex
  | roll
deriving DecidableEq

namespace StackOperation

def all : List StackOperation := [dup, pop, clear, swap, depth, cindex, mindex, roll]

def opcode : StackOperation → UInt8
  | dup => 0x20
  | pop => 0x21
  | clear => 0x22
  | swap => 0x23
  | depth => 0x24
  | cindex => 0x25
  | mindex => 0x26
  | roll => 0x8A

def mnemonic : StackOperation → String
  | dup => "DUP"
  | pop => "POP"
  | clear => "CLEAR"
  | swap => "SWAP"
  | depth => "DEPTH"
  | cindex => "CINDEX"
  | mindex => "MINDEX"
  | roll => "ROLL"

end StackOperation

inductive UnaryOperation
  | not
  | abs
  | neg
  | floor
  | ceiling
deriving DecidableEq

namespace UnaryOperation

def all : List UnaryOperation := [not, abs, neg, floor, ceiling]

def opcode : UnaryOperation → UInt8
  | not => 0x5C
  | abs => 0x64
  | neg => 0x65
  | floor => 0x66
  | ceiling => 0x67

def mnemonic : UnaryOperation → String
  | not => "NOT"
  | abs => "ABS"
  | neg => "NEG"
  | floor => "FLOOR"
  | ceiling => "CEILING"

end UnaryOperation

inductive BinaryOperation
  | lt
  | lteq
  | gt
  | gteq
  | eq
  | neq
  | and
  | or
  | add
  | sub
  | div
  | mul
  | max
  | min
deriving DecidableEq

namespace BinaryOperation

def all : List BinaryOperation :=
  [lt, lteq, gt, gteq, eq, neq, and, or, add, sub, div, mul, max, min]

def opcode : BinaryOperation → UInt8
  | lt => 0x50
  | lteq => 0x51
  | gt => 0x52
  | gteq => 0x53
  | eq => 0x54
  | neq => 0x55
  | and => 0x5A
  | or => 0x5B
  | add => 0x60
  | sub => 0x61
  | div => 0x62
  | mul => 0x63
  | max => 0x8B
  | min => 0x8C

def mnemonic : BinaryOperation → String
  | lt => "LT"
  | lteq => "LTEQ"
  | gt => "GT"
  | gteq => "GTEQ"
  | eq => "EQ"
  | neq => "NEQ"
  | and => "AND"
  | or => "OR"
  | add => "ADD"
  | sub => "SUB"
  | div => "DIV"
  | mul => "MUL"
  | max => "MAX"
  | min => "MIN"

end BinaryOperation

inductive StorageOperation
  | ws
  | rs
  | wcvtp
  | rcvt
  | wcvtf
deriving DecidableEq

namespace StorageOperation

def all : List StorageOperation := [ws, rs, wcvtp, rcvt, wcvtf]

def opcode : StorageOperation → UInt8
  | ws => 0x42
  | rs => 0x43
  | wcvtp => 0x44
  | rcvt => 0x45
  | wcvtf => 0x70

def mnemonic : StorageOperation → String
  | ws => "WS"
  | rs => "RS"
  | wcvtp => "WCVTP"
  | rcvt => "RCVT"
  | wcvtf => "WCVTF"

end StorageOperation

inductive ControlOperation
  | beginElse
  | loopCall
  | call
  | beginFunction
  | endFunction
  | beginIf
  | endIf
deriving DecidableEq

namespace ControlOperation

def all : List ControlOperation :=
  [beginElse, loopCall, call, beginFunction, endFunction, beginIf, endIf]

def opcode : ControlOperation → UInt8
  | beginElse => 0x1B
  | loopCall => 0x2A
  | call => 0x2B
  | beginFunction => 0x2C
  | endFunction => 0x2D
  | beginIf => 0x58
  | endIf => 0x59

def mnemonic : ControlOperation → String
  | beginElse => "ELSE"
  | loopCall => "LOOPCALL"
  | call => "CALL"
  | beginFunction => "FDEF"
  | endFunction => "ENDF"
  | beginIf => "IF"
  | endIf => "EIF"

end ControlOperation

/-! ## Pushes -/

inductive PushWidth
  /-- Unsigned literals of one byte. -/
  | bytes
  /-- Signed literals of two bytes, the high byte first. -/
  | words
deriving DecidableEq

def PushWidth.size : PushWidth → Nat
  | bytes => 1
  | words => 2

inductive PushForm
  /-- The byte after the opcode holds the literal count. -/
  | counted
  /-- The opcode itself holds the literal count, from one to eight. -/
  | inline
deriving DecidableEq

/-- The literals need not fit the width, nor their count the form: a push that
does not fit has no bytecode. -/
structure Push where
  width : PushWidth
  form : PushForm
  literals : List Int32
deriving DecidableEq

namespace Push

def mnemonic (push : Push) : String :=
  match push.form, push.width with
  | .counted, .bytes => "NPUSHB"
  | .counted, .words => "NPUSHW"
  | .inline, .bytes => "PUSHB"
  | .inline, .words => "PUSHW"

def maxInlineCount : Nat := 8

def shortest (width : PushWidth) (literals : List Int32) : Push :=
  { width, literals
    form :=
      if 1 ≤ literals.length ∧ literals.length ≤ maxInlineCount then .inline else .counted }

def ofBytes (literals : List UInt8) : Push :=
  shortest .bytes (literals.map fun literal => .ofNat literal.toNat)

def ofWords (literals : List Int16) : Push :=
  shortest .words (literals.map Int16.toInt32)

/-- The mnemonic, the literal count of an inline push in brackets, and the
literals. -/
def display (push : Push) : String :=
  let head :=
    match push.form with
    | .counted => push.mnemonic
    | .inline => s!"{push.mnemonic}[{push.literals.length}]"
  String.join (head :: push.literals.map fun literal => s!" {literal.toInt}")

example : (ofWords [-300, 2]).display = "PUSHW[2] -300 2" := by decide +kernel

end Push

/-! ## Instructions -/

inductive Instruction
  | push (push : Push)
  | stack (operation : StackOperation)
  | unary (operation : UnaryOperation)
  | binary (operation : BinaryOperation)
  | storage (operation : StorageOperation)
  | control (operation : ControlOperation)
deriving DecidableEq

abbrev Program := List Instruction

namespace Instruction

/-- The name without literals and without a literal count. -/
def mnemonic : Instruction → String
  | push literals => literals.mnemonic
  | stack operation => operation.mnemonic
  | unary operation => operation.mnemonic
  | binary operation => operation.mnemonic
  | storage operation => operation.mnemonic
  | control operation => operation.mnemonic

def display : Instruction → String
  | push literals => literals.display
  | other => other.mnemonic

/-- Every instruction that is not a push. -/
def bare : List Instruction :=
  StackOperation.all.map stack ++ UnaryOperation.all.map unary ++
    BinaryOperation.all.map binary ++ StorageOperation.all.map storage ++
    ControlOperation.all.map control

def bareOfMnemonic? (name : String) : Option Instruction :=
  bare.find? fun instruction => instruction.mnemonic = name

end Instruction

end Hinting
