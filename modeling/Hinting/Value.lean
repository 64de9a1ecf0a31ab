import Hinting.Fault

/-!
The numbers that hinting programs work with.

A value is a whole number or a fixed-point number with six fractional bits. A
pair of values is brought to one representation before it is compared or
calculated with: the whole number becomes fixed point as soon as the other
operand is.
-/

namespace Hinting

/-- `fixed bits` stands for `bits / 64`. -/
inductive Value
  | int (number : Int64)
  | fixed (bits : Int64)
deriving DecidableEq, Inhabited

/-- Two operands in one representation. -/
inductive Operands
  | ints (left right : Int64)
  | fixed (left right : Int64)
deriving DecidableEq

namespace Operands

def map (operation : Int64 → Int64 → Int64) : Operands → Value
  | ints left right => .int (operation left right)
  | fixed left right => .fixed (operation left right)

def compare : Operands → Ordering
  | ints left right | fixed left right => Ord.compare left right

end Operands

namespace Value

/-! ## Readings of one value -/

def raw : Value → Int64
  | int number => number
  | fixed bits => bits

def isFixed : Value → Bool
  | int _ => false
  | fixed _ => true

/-- Zero is false and all else is true, in both representations. -/
def isTrue (value : Value) : Bool :=
  value.raw != 0

/-- The value in sixty-fourths. A whole number too large for fixed point
becomes the nearest bound. -/
def fixedBits : Value → Int64
  | int number => Int64.ofIntClamp (number.toInt * 64)
  | fixed bits => bits

example : (int Int64.maxValue).fixedBits = Int64.maxValue := by decide

/-- The whole units, truncated toward zero. -/
def integerPart : Value → Int64
  | int number => number
  | fixed bits => bits / 64

example : (fixed (-100)).integerPart = -1 := by decide

def toIndex (value : Value) (kind : IndexKind) : Except Fault UInt32 :=
  let index := value.integerPart.toInt
  if 0 ≤ index ∧ index < UInt32.size then .ok (.ofNat index.toNat)
  else .error (.invalidIndex kind value.integerPart)

/-- The value as a storage location: every number of whole units that is not
negative is one. -/
def toLocation (value : Value) : Except Fault UInt64 :=
  let index := value.integerPart.toInt
  if 0 ≤ index then .ok (.ofNat index.toNat)
  else .error (.invalidIndex .storageLocation value.integerPart)

/-! ## Values from numbers -/

def withRaw (value : Value) (number : Int64) : Value :=
  match value with
  | int _ => int number
  | fixed _ => fixed number

def ofBool (condition : Bool) : Value :=
  int (if condition then 1 else 0)

def ofInt32 (number : Int32) : Value :=
  int number.toInt64

def ofInt16 (number : Int16) : Value :=
  int number.toInt64

/-! ## Pairs -/

def promote : Value → Value → Operands
  | int left, int right => .ints left right
  | left, right => .fixed left.fixedBits right.fixedBits

example : promote (int 2) (fixed 32) = .fixed 128 32 := by decide

def compare (left right : Value) : Ordering :=
  (promote left right).compare

end Value

end Hinting
