import Hinting.Binary64
import Hinting.Value

/-!
Values, double-precision numbers and text.
-/

namespace Hinting.Value

def ofBinary64 (number : Binary64) : Value :=
  fixed number.toSixtyFourths

/-- The nearest double. The bits of a fixed-point value are rounded first; the
division by 64 is then exact. -/
def toBinary64 : Value → Binary64
  | int number => .ofInt number.toInt
  | fixed bits => (Binary64.ofInt bits.toInt).scale (-6)

/-- Whole numbers as they are, fixed-point numbers as the shortest decimal of
their double with `f` after it. -/
def display (value : Value) : String :=
  match value with
  | int number => toString number.toInt
  | fixed _ => value.toBinary64.toShortest ++ "f"

example : (fixed 160).display = "2.5f" := by decide +kernel
example : (fixed (-1)).display = "-0.015625f" := by decide +kernel

end Hinting.Value
