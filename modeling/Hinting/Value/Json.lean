import Hinting.Json.Basic
import Hinting.Value

/-!
Values as JSON: an object whose one member names the representation.
-/

namespace Hinting.Value

def toJson : Value → Json
  | int number => .object [(some "Int", .integer number.toInt)]
  | fixed bits => .object [(some "F26Dot6", .integer bits.toInt)]

def wordOfJson? (document : Json) : Option Int64 :=
  (document.integerWithin? Int64.minValue.toInt (Int64.maxValue.toInt + 1)).map Int64.ofInt

def ofJson? : Json → Option Value
  | .object [(some name, number)] =>
      if name = "Int" then (wordOfJson? number).map int
      else if name = "F26Dot6" then (wordOfJson? number).map fixed
      else none
  | _ => none

@[simp] theorem wordOfJson?_integer (number : Int64) :
    wordOfJson? (.integer number.toInt) = some number := by
  have lower := number.minValue_le_toInt
  have upper := Int.lt_add_one_of_le number.toInt_le
  rw [wordOfJson?, Json.integerWithin?, if_pos ⟨lower, upper⟩, Option.map_some,
    Int64.ofInt_toInt]

theorem ofJson?_toJson (value : Value) : ofJson? value.toJson = some value := by
  cases value <;> simp [toJson, ofJson?]

end Hinting.Value
