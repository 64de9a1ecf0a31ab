import Hinting.Limits
import Hinting.Toml.Document

/-!
Limits from TOML text and from files.
-/

namespace Hinting.Limits

inductive ReadFault
  /-- There is no file, or its content is no text. -/
  | unreadable (path : String)
  /-- The text is not TOML, or a limit is not an integer within its range. -/
  | invalid
deriving DecidableEq

def ReadFault.message : ReadFault → String
  | unreadable path => s!"failed to read VM configuration from {path}"
  | invalid => "invalid VM configuration"

def limitOfToml? (entries : Toml.Entries) (name : String) : Option (Option Nat) :=
  match Toml.Entries.get? entries name with
  | none => some none
  | some (.integer number) =>
      if 0 ≤ number ∧ number < UInt64.size then some (some number.toNat) else none
  | some _ => none

/-- Limits that are missing have their defaults, and other entries mean
nothing. -/
def ofToml? (entries : Toml.Entries) : Option Limits := do
  let defaults : Limits := {}
  return {
    maxStackDepth := (← limitOfToml? entries "max_stack_depth").getD defaults.maxStackDepth
    maxCallDepth := (← limitOfToml? entries "max_call_depth").getD defaults.maxCallDepth
    maxSteps := ← limitOfToml? entries "max_steps" }

def ofTomlText (content : String) : Except ReadFault Limits :=
  match Toml.ofText? content >>= ofToml? with
  | some limits => .ok limits
  | none => .error .invalid

/-- The limits that a file holds, given its content if it is there. -/
def ofFile (path : String) (content? : Option (List UInt8)) : Except ReadFault Limits :=
  match content?.bind fun content => String.fromUTF8? ⟨content.toArray⟩ with
  | some content => ofTomlText content
  | none => .error (.unreadable path)

end Hinting.Limits
