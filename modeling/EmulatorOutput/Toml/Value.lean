/-!
# TOML values

A document is a list of entries. Tables carry a mark that says how they came to be, because it
decides what may still be added to them.
-/

namespace EmulatorOutput.Toml

/-- How a table came to be. -/
inductive Mark where
  /-- Written in braces. -/
  | closed
  /-- Opened by a header of its own. -/
  | opened
  /-- Passed through by the header of a table inside it. -/
  | implied
  /-- Passed through by a dotted key. -/
  | dotted
  deriving DecidableEq, Repr

/-- A value. Floats and moments are kept as they are written. -/
inductive Value where
  | text (s : String)
  | integer (n : Int)
  | float (written : String)
  | boolean (b : Bool)
  | moment (written : String)
  | array (items : List Value)
  | table (mark : Mark) (entries : List (String × Value))
  /-- The tables that rows of one header name have opened, in their order. -/
  | tables (rows : List (List (String × Value)))
  deriving Inhabited

/-- The entries of a table in the order of their keys' first mention. -/
abbrev Entries := List (String × Value)

namespace Value

def entries? : Value → Option Entries
  | .table _ entries => some entries
  | _ => none

end Value

end EmulatorOutput.Toml
