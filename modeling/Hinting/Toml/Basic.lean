/-!
TOML documents.
-/

namespace Hinting

/-- How a table came to be, which decides how it may grow. -/
inductive Toml.TableKind
  /-- Named on the way to another table by a header. A header may define it. -/
  | implied
  /-- Named on the way to a value by a dotted key. Dotted keys may extend it. -/
  | dotted
  | defined
  /-- Written as a value. It is complete. -/
  | inline
deriving DecidableEq

inductive Toml
  | integer (number : Int)
  /-- A number with a fraction or an exponent, an infinity or no number at all, as
  it is written. -/
  | float (written : String)
  | bool (truth : Bool)
  | text (content : String)
  /-- A date, a time or both, as it is written. -/
  | moment (written : String)
  | array (elements : List Toml)
  | table (kind : Toml.TableKind) (entries : List (String × Toml))
  /-- The tables that headers in double brackets define one by one. -/
  | tables (elements : List (List (String × Toml)))

namespace Toml

/-- The entries of a table by name. No name occurs twice. -/
abbrev Entries := List (String × Toml)

end Toml

end Hinting
