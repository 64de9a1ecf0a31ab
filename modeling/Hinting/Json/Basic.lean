/-!
JSON documents.
-/

namespace Hinting

/-- A JSON value. Members keep their order and their repetitions. -/
inductive Json
  | null
  | bool (truth : Bool)
  /-- A number without fraction and exponent, other than a negative zero. -/
  | integer (number : Int)
  /-- Any other number, as it is written. -/
  | real (written : String)
  /-- A text, or `none` if it holds half of a surrogate pair and so is no sequence
  of characters. -/
  | text (content : Option String)
  | array (elements : List Json)
  | object (members : List (Option String × Json))

namespace Json

def integerWithin? (low high : Int) : Json → Option Int
  | integer number => if low ≤ number ∧ number < high then some number else none
  | _ => none

def valuesOf (name : String) (members : List (Option String × Json)) : List Json :=
  members.filterMap fun (key, value) => if key = some name then some value else none

/-- The value of a member that may be missing but not repeated. -/
def member? (name : String) (members : List (Option String × Json)) :
    Option (Option Json) :=
  match valuesOf name members with
  | [] => some none
  | [value] => some (some value)
  | _ => none

def namesDecode (members : List (Option String × Json)) : Bool :=
  members.all fun (key, _) => key.isSome

end Json

end Hinting
