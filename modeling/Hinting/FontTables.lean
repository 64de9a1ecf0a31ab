/-!
The parts of a font that its hinting programs come from.
-/

namespace Hinting

structure FontTables where
  /-- The bytecode that defines the functions of the font. -/
  fontProgram : Option (List UInt8) := none
  /-- The bytecode that prepares control values and storage. -/
  controlValueProgram : Option (List UInt8) := none
  /-- Control values in font units. -/
  controlValues : List Int16 := []
deriving DecidableEq

end Hinting
