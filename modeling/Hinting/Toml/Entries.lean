import Hinting.Toml.Basic

/-!
How tables grow.

A name is given a value once. Dotted keys and headers reach into tables that
exist, and create those that do not, as far as the way these came to be allows.
-/

namespace Hinting.Toml.Entries

def get? (entries : Entries) (name : String) : Option Toml :=
  entries.lookup name

def put (entries : Entries) (name : String) (value : Toml) : Entries :=
  if (get? entries name).isSome then
    entries.map fun entry => if entry.1 = name then (name, value) else entry
  else entries ++ [(name, value)]

/-- Add a value under a dotted key: the names of its tables and its own. Tables on
the way are extended if they come from dotted keys too. -/
def addValue (value : Toml) (entries : Entries) :
    (path : List String) → (name : String) → Option Entries
  | [], name =>
      match get? entries name with
      | none => some (put entries name value)
      | some _ => none
  | parent :: path, name =>
      match get? entries parent with
      | none => do
          return put entries parent (.table .dotted (← addValue value [] path name))
      | some (.table .dotted inner) => do
          return put entries parent (.table .dotted (← addValue value inner path name))
      | some (.table .implied inner) => do
          /- The value itself only goes into a table of dotted keys. -/
          guard (!path.isEmpty)
          return put entries parent (.table .implied (← addValue value inner path name))
      | some (.tables elements) => do
          guard (!path.isEmpty)
          let inner ← addValue value (elements.getLastD []) path name
          return put entries parent (.tables (elements.dropLast ++ [inner]))
      | some _ => none

/-- Change the table that a header names. Tables on the way are created, and of
tables in double brackets the last is meant. -/
def change (action : Entries → Option Entries) (entries : Entries) :
    (path : List String) → Option Entries
  | [] => action entries
  | parent :: path =>
      match get? entries parent with
      | none => do return put entries parent (.table .implied (← change action [] path))
      | some (.table .inline _) => none
      | some (.table kind inner) => do
          return put entries parent (.table kind (← change action inner path))
      | some (.tables elements) => do
          let inner ← change action (elements.getLastD []) path
          return put entries parent (.tables (elements.dropLast ++ [inner]))
      | some _ => none

/-- Define a table. Only a table that was named on the way to another may exist
before. -/
def define (name : String) (entries : Entries) : Option Entries :=
  match get? entries name with
  | none => some (put entries name (.table .defined []))
  | some (.table .implied inner) => some (put entries name (.table .defined inner))
  | some _ => none

def append (name : String) (entries : Entries) : Option Entries :=
  match get? entries name with
  | none => some (put entries name (.tables [[]]))
  | some (.tables elements) => some (put entries name (.tables (elements ++ [[]])))
  | some _ => none

example : (addValue (.integer 1) [] ["a"] "b").bind (define "a") |>.isNone := by decide

end Hinting.Toml.Entries
