import Hinting.Json.Token

/-!
Reading JSON documents from their tokens.
-/

namespace Hinting.Json

/-! Every function returns the tokens that it leaves. `limit` bounds the nesting
of calls: two of them for every token that is taken. -/

mutual

def value? : (limit : Nat) → List Token → Option (Json × List Token)
  | 0, _ => none
  | limit + 1, tokens =>
      match tokens with
      | .null :: rest => some (null, rest)
      | .bool truth :: rest => some (bool truth, rest)
      | .integer number :: rest => some (integer number, rest)
      | .real written :: rest => some (real written, rest)
      | .text content :: rest => some (text content, rest)
      | .beginArray :: .endArray :: rest => some (array [], rest)
      | .beginArray :: rest => do
          let (elements, rest) ← elements? limit rest
          return (array elements, rest)
      | .beginObject :: .endObject :: rest => some (object [], rest)
      | .beginObject :: rest => do
          let (members, rest) ← members? limit rest
          return (object members, rest)
      | _ => none

def elements? : (limit : Nat) → List Token → Option (List Json × List Token)
  | 0, _ => none
  | limit + 1, tokens => do
      let (element, rest) ← value? limit tokens
      match rest with
      | .comma :: rest => do
          let (elements, rest) ← elements? limit rest
          return (element :: elements, rest)
      | .endArray :: rest => return ([element], rest)
      | _ => none

def members? : (limit : Nat) → List Token →
    Option (List (Option String × Json) × List Token)
  | 0, _ => none
  | limit + 1, tokens =>
      match tokens with
      | .text name :: .colon :: rest => do
          let (value, rest) ← value? limit rest
          match rest with
          | .comma :: rest => do
              let (members, rest) ← members? limit rest
              return ((name, value) :: members, rest)
          | .endObject :: rest => return ([(name, value)], rest)
          | _ => none
      | _ => none

end

def parse? (content : String) : Option Json := do
  let tokens ← Token.ofText? content
  match ← value? (2 * tokens.length + 1) tokens with
  | (document, []) => some document
  | _ => none

end Hinting.Json
