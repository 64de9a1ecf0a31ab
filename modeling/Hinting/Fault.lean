import Hinting.Instruction

/-!
Everything that can go wrong while hinting bytecode is read, written or run.

A `Fault` is the cause alone; a `Failure` adds the trail of places that the
cause passed through on its way out of nested programs. The texts of both are
written here and nowhere else.
-/

namespace Hinting

/-! ## Malformed bytecode -/

/-- What is wrong with a piece of bytecode, or with an instruction that has no
bytecode. Pushes are named by their mnemonic. -/
inductive Defect
  | unrecognizedOpcode (opcode : UInt8)
  | missingCount
  | truncatedPush (count size left : Nat)
  | oversizedLiteral (literal : Int32) (mnemonic : String)
  | unsupportedCount (mnemonic : String) (count : Nat)
  /-- A defect that is only known by its description. -/
  | described (text : String)
deriving DecidableEq

def hexByte (byte : UInt8) : String :=
  String.ofList [(byte.toNat / 16).digitChar.toUpper, (byte.toNat % 16).digitChar.toUpper]

example : hexByte 0x0A = "0A" := rfl

def Defect.message : Defect → String
  | .unrecognizedOpcode opcode => "unrecognized opcode 0x" ++ hexByte opcode
  | .missingCount => "missing literal count"
  | .truncatedPush count size left =>
      s!"push of {count} literal(s) needs {size} byte(s), {left} left"
  | .oversizedLiteral literal mnemonic => s!"literal {literal.toInt} does not fit {mnemonic}"
  | .unsupportedCount mnemonic count => s!"{mnemonic} cannot carry {count} literals"
  | .described text => text

structure Malformation where
  offset : Nat
  defect : Defect
deriving DecidableEq

/-! ## Causes -/

inductive IndexKind
  | stackDepth
  | storageLocation
  | controlValue
  | function
deriving DecidableEq

def IndexKind.description : IndexKind → String
  | .stackDepth => "stack depth"
  | .storageLocation => "storage location"
  | .controlValue => "control value index"
  | .function => "function id"

inductive DefinitionMarker
  | fdef
  | endf
deriving DecidableEq

def DefinitionMarker.operation : DefinitionMarker → ControlOperation
  | .fdef => .beginFunction
  | .endf => .endFunction

/-- Whether a machine carries instructions out or records them for a function. -/
inductive Mode
  | normal
  | capturing (id : UInt32)
deriving DecidableEq

def Mode.description : Mode → String
  | .normal => "normal"
  | .capturing id => s!"capturing function {id.toNat}"

inductive Fault
  | malformedProgram (malformation : Malformation)
  | stackUnderflow (needed available : Nat)
  | stackOverflow (limit : Nat)
  | unresolvedFunction (id : UInt32)
  | uninitializedStorage (location : UInt64)
  | illegalStateTransition (marker : DefinitionMarker) (mode : Mode)
  | unterminatedFunction (id : UInt32)
  | unbalancedConditional
  | invalidIndex (kind : IndexKind) (index : Int64)
  | divisionByZero
  | stepLimitExceeded (limit : Nat)
  | callDepthExceeded (limit : Nat)
deriving DecidableEq

def Fault.message : Fault → String
  | .malformedProgram malformation =>
      s!"malformed program at byte {malformation.offset}: {malformation.defect.message}"
  | .stackUnderflow needed available =>
      s!"stack underflow: needed {needed} operand(s), {available} available"
  | .stackOverflow limit => s!"stack overflow: depth limit {limit} reached"
  | .unresolvedFunction id => s!"call to undefined function {id.toNat}"
  | .uninitializedStorage location =>
      s!"read of uninitialized storage location {location.toNat}"
  | .illegalStateTransition marker mode =>
      s!"{marker.operation.mnemonic} is not allowed while {mode.description}"
  | .unterminatedFunction id => s!"function {id.toNat} is missing its ENDF"
  | .unbalancedConditional => "IF without matching EIF"
  | .invalidIndex kind index => s!"invalid {kind.description}: {index.toInt}"
  | .divisionByZero => "division by zero"
  | .stepLimitExceeded limit => s!"instruction budget of {limit} steps exhausted"
  | .callDepthExceeded limit => s!"call depth limit {limit} exceeded"

example : (Fault.illegalStateTransition .fdef (.capturing 7)).message =
    "FDEF is not allowed while capturing function 7" := by decide

/-! ## Failures -/

/-- A place that a fault passed through. -/
inductive Context
  | instruction (mnemonic : String) (index : Nat)
  | function (id : UInt32)
  | fontProgram
  | controlValueProgram
  | fontProgramDecoding
  | controlValueProgramDecoding
deriving DecidableEq

def Context.message : Context → String
  | .instruction mnemonic index => s!"{mnemonic} at instruction {index}"
  | .function id => s!"in function {id.toNat}"
  | .fontProgram => "font program failed"
  | .controlValueProgram => "prep program failed"
  | .fontProgramDecoding => "failed to decode fpgm"
  | .controlValueProgramDecoding => "failed to decode prep"

/-- A fault below its contexts, outermost first. -/
structure Failure where
  trail : List Context := []
  cause : Fault
deriving DecidableEq

namespace Failure

def within (failure : Failure) (context : Context) : Failure :=
  { failure with trail := context :: failure.trail }

def message (failure : Failure) : String :=
  ": ".intercalate (failure.trail.map Context.message ++ [failure.cause.message])

@[simp] theorem cause_within (failure : Failure) (context : Context) :
    (failure.within context).cause = failure.cause := rfl

@[simp] theorem trail_within (failure : Failure) (context : Context) :
    (failure.within context).trail = context :: failure.trail := rfl

end Failure

end Hinting
