import Hinting.Toml.Syntax

/-!
Reading TOML documents.
-/

namespace Hinting.Toml

open Scanner (Statement)

structure Draft where
  entries : Entries := []
  current : List String := []

def Draft.add? (draft : Draft) : Statement → Option Draft
  | .define path name => do
      return ⟨← Entries.change (Entries.define name) draft.entries path, path ++ [name]⟩
  | .append path name => do
      return ⟨← Entries.change (Entries.append name) draft.entries path, path ++ [name]⟩
  | .entry path name value => do
      let add (entries : Entries) := Entries.addValue value entries path name
      return { draft with entries := ← Entries.change add draft.entries draft.current }

def dropByteOrderMark : List Char → List Char
  | '\ufeff' :: rest => rest
  | characters => characters

def ofText? (content : String) : Option Entries := do
  let characters := dropByteOrderMark content.toList
  let (statements, _) ← Scanner.statements (characters.length + 1) characters
  let draft ← statements.foldlM Draft.add? {}
  return draft.entries

example : (ofText? "a = 1\na = 2").isNone := by decide +kernel
example : (ofText? "a = \x7b b # c\n=\n1, \x7d").isSome := by decide +kernel
example : (ofText? "[a.b]\nc = 1\n[a]\nd = [1, [2],]").isSome := by decide +kernel

end Hinting.Toml
