import Hinting.Json.Basic

/-!
Writing JSON documents.

A layout says what goes between tokens; the tokens do not depend on it.
-/

namespace Hinting.Json

/-! ## Texts -/

/-- A character within quotes. Control characters and the two characters with a
meaning there are escaped. -/
def escape (character : Char) : List Char :=
  match character with
  | '"' => ['\\', '"']
  | '\\' => ['\\', '\\']
  | '\x08' => ['\\', 'b']
  | '\x0c' => ['\\', 'f']
  | '\n' => ['\\', 'n']
  | '\r' => ['\\', 'r']
  | '\t' => ['\\', 't']
  | character =>
      if character.toNat < 0x20 then
        ['\\', 'u', '0', '0', (character.toNat / 16).digitChar,
          (character.toNat % 16).digitChar]
      else [character]

/-- A text that is no sequence of characters is written as the replacement
character. -/
def quote (content : Option String) : List Char :=
  '"' :: (content.getD "\ufffd").toList.flatMap escape ++ ['"']

/-! ## Documents -/

structure Layout where
  /-- What precedes a member or a closing bracket at a nesting level. -/
  lineBreak : (level : Nat) → List Char
  colon : List Char

namespace Layout

def compact : Layout := ⟨fun _ => [], [':']⟩

/-- Every element on a line of its own, two spaces to the right of its array or
object. -/
def pretty : Layout := ⟨fun level => '\n' :: List.replicate (2 * level) ' ', [':', ' ']⟩

end Layout

mutual

def render (layout : Layout) (level : Nat) : Json → List Char
  | null => "null".toList
  | bool truth => (if truth then "true" else "false").toList
  | integer number => (toString number).toList
  | real written => written.toList
  | text content => quote content
  | array [] => ['[', ']']
  | array (element :: elements) =>
      '[' :: layout.lineBreak (level + 1) ++ element.render layout (level + 1) ++
        renderElements layout level elements
  | object [] => ['\x7b', '\x7d']
  | object ((name, value) :: members) =>
      '\x7b' :: layout.lineBreak (level + 1) ++ quote name ++ layout.colon ++
        value.render layout (level + 1) ++ renderMembers layout level members

def renderElements (layout : Layout) (level : Nat) : List Json → List Char
  | [] => layout.lineBreak level ++ [']']
  | element :: elements =>
      ',' :: layout.lineBreak (level + 1) ++ element.render layout (level + 1) ++
        renderElements layout level elements

def renderMembers (layout : Layout) (level : Nat) :
    List (Option String × Json) → List Char
  | [] => layout.lineBreak level ++ ['\x7d']
  | (name, value) :: members =>
      ',' :: layout.lineBreak (level + 1) ++ quote name ++ layout.colon ++
        value.render layout (level + 1) ++ renderMembers layout level members

end

def compact (document : Json) : String :=
  .ofList (document.render .compact 0)

def pretty (document : Json) : String :=
  .ofList (document.render .pretty 0)

def ofMembers (members : List (String × Json)) : Json :=
  object (members.map fun (name, value) => (some name, value))

example : (ofMembers [("a", .array [.integer 1, .null])]).compact =
    "\x7b\"a\":[1,null]\x7d" := by decide +kernel

end Hinting.Json
