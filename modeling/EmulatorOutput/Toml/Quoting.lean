import EmulatorOutput.Fault
import EmulatorOutput.Toml.Text

/-!
# How text is quoted

A written text takes the first of five forms that shows it without escapes: double quotes,
single quotes, three double quotes, three single quotes. If none does it is escaped, between
three double quotes if it has lines and between single ones otherwise. Runs of quotes are counted
in a byte, so that a text with a run that no byte can count is not written at all.
-/

namespace EmulatorOutput.Toml

/-- A character that no form but an escape can show. -/
def isControl (c : Char) : Bool := !isPrinting c && c != '\n'

/-- The number of values of a byte. -/
def runBound : Nat := UInt8.size

/-- The length of the longest run of a character, where a byte can count all its runs. Counting
goes on after a longest run so far and a current one. -/
def longestRunAfter (c : Char) (longest current : Nat) : List Char → Except Fault Nat
  | [] => .ok longest
  | x :: rest =>
    if x = c then
      match Word.addBelow runBound current 1 with
      | .ok current => longestRunAfter c (max longest current) current rest
      | .error f => .error f
    else longestRunAfter c longest 0 rest

/-- The length of the longest run of a character, where a byte can count all its runs. -/
def longestRun (c : Char) (cs : List Char) : Except Fault Nat := longestRunAfter c 0 0 cs

/-- The ways of quoting. -/
inductive QuoteForm where
  | basic
  | literal
  | longBasic
  | longLiteral
  deriving DecidableEq, Repr

namespace QuoteForm

/-- The form of a text with the given longest runs of double and of single quotes. -/
def choose (doubles singles : Nat) (cs : List Char) : QuoteForm :=
  let control := cs.any isControl
  let lines := cs.contains '\n'
  let backslash := cs.contains '\\'
  if !control && !lines && !backslash && doubles = 0 then .basic
  else if !control && !lines && singles = 0 then .literal
  else if !control && !backslash && doubles ≤ 2 then .longBasic
  else if !control && singles ≤ 2 then .longLiteral
  else if lines then .longBasic
  else .basic

/-- The form that a text is written in. -/
def ofText (cs : List Char) : Except Fault QuoteForm := do
  let doubles ← longestRun '"' cs
  let singles ← longestRun '\'' cs
  return choose doubles singles cs

/-- What stands before and after a text. -/
def delimiter : QuoteForm → List Char
  | .basic => ['"']
  | .literal => ['\'']
  | .longBasic => ['"', '"', '"']
  | .longLiteral => ['\'', '\'', '\'']

end QuoteForm

def hexDigit (n : Nat) : Char :=
  if n < 10 then Char.ofNat ('0'.toNat + n) else Char.ofNat ('A'.toNat + (n - 10))

/-- The escape of a character, if it needs one. Lines of a long text are broken as they are. -/
def escapeOf? (long : Bool) (c : Char) : Option (List Char) :=
  match c with
  | '\x08' => some ['\\', 'b']
  | '\t' => some ['\\', 't']
  | '\n' => if long then none else some ['\\', 'n']
  | '\x0c' => some ['\\', 'f']
  | '\r' => some ['\\', 'r']
  | '\\' => some ['\\', '\\']
  | c =>
    if isControl c then
      some ['\\', 'u', '0', '0', hexDigit (c.toNat / 16), hexDigit (c.toNat % 16)]
    else none

/-- A text with escapes, after so many double quotes. A long text escapes only the third of
three double quotes in a row. -/
def escapeText (long : Bool) : Nat → List Char → List Char
  | _, [] => []
  | quotes, '"' :: rest =>
    if long && quotes < 2 then '"' :: escapeText long (quotes + 1) rest
    else '\\' :: '"' :: escapeText long 0 rest
  | _, c :: rest =>
    match escapeOf? long c with
    | some written => written ++ escapeText long 0 rest
    | none => c :: escapeText long 0 rest

/-- A text as it is written in a form. -/
def QuoteForm.apply (form : QuoteForm) (cs : List Char) : List Char :=
  let opening := form.delimiter ++
    if form.delimiter.length = 3 && cs.contains '\n' then ['\n'] else []
  let body :=
    match form with
    | .basic => escapeText false 0 cs
    | .longBasic => escapeText true 0 cs
    | .literal | .longLiteral => cs
  opening ++ (body ++ form.delimiter)

def quote (s : String) : Except Fault String := do
  let cs := s.toList
  let form ← QuoteForm.ofText cs
  return String.ofList (form.apply cs)

end EmulatorOutput.Toml
