import EmulatorOutput.Toml.Quoting
import EmulatorOutput.Toml.Value

/-!
# Outlines

Documents of a simple shape: fields, and sections of fields. Names are written as they are, so
they are made of letters, digits and underscores. A document can be written if its numbers are
integers that a document can hold; writing breaks off at a text that cannot be quoted.
-/

namespace EmulatorOutput.Toml

/-- A value of a field. -/
inductive Scalar where
  | text (s : String)
  | number (n : Nat)
  | flag (b : Bool)
  deriving DecidableEq, Repr

namespace Scalar

/-- Whether a value can be written. A number may not exceed the largest integer. -/
def isWritable : Scalar → Bool
  | .number n => n < Word.limit / 2
  | .text _ | .flag _ => true

def render : Scalar → Except Fault String
  | .text s => quote s
  | .number n => .ok (toString n)
  | .flag b => .ok (if b then "true" else "false")

/-- The value of a field in a document. -/
def toValue : Scalar → Value
  | .text s => .text s
  | .number n => .integer n
  | .flag b => .boolean b

end Scalar

/-- Named values in their order. -/
abbrev Fields := List (String × Scalar)

namespace Fields

def isWritable (fs : Fields) : Bool := fs.all fun (_, value) => value.isWritable

/-- Fields, one a line. -/
def render (fs : Fields) : Except Fault String := do
  let ls ← fs.mapM fun (name, value) => do return s!"{name} = {← value.render}\n"
  return String.join ls

end Fields

/-- A document of fields and sections. -/
structure Outline where
  fields : Fields
  sections : List (String × Fields)
  deriving Repr

namespace Outline

def isWritable (o : Outline) : Bool :=
  Fields.isWritable o.fields && o.sections.all fun (_, fields) => Fields.isWritable fields

/-- A document as text, with a blank line before each section. -/
def render (o : Outline) : Except Fault String := do
  let top ← Fields.render o.fields
  let rest ← o.sections.mapM fun (name, fields) => do
    return s!"\n[{name}]\n{← Fields.render fields}"
  return top ++ String.join rest

def entries (o : Outline) : Entries :=
  o.fields.map (fun (name, value) => (name, value.toValue)) ++
    o.sections.map fun (name, fields) =>
      (name, .table .opened (fields.map fun (name, value) => (name, value.toValue)))

end Outline

end EmulatorOutput.Toml
