/-!
# Scans

A scan takes something off the front of an input and leaves the rest, or fails. A scan that fails
takes nothing, so that another can be tried in its place. An input knows how many characters it
has, so that what a scan has taken can be told without counting.
-/

namespace EmulatorOutput.Toml

/-- Text that is still to be read, and its length. -/
structure Input where
  chars : List Char
  count : Nat
  count_eq : count = chars.length

namespace Input

def ofText (text : String) : Input where
  chars := text.toList
  count := text.toList.length
  count_eq := rfl

/-- What is left after so many characters. -/
def drop (n : Nat) (t : Input) : Input where
  chars := t.chars.drop n
  count := t.count - n
  count_eq := by rw [List.length_drop, t.count_eq]

end Input

/-- A reader of the front of an input. -/
abbrev Scan := StateT Input Option

namespace Scan

variable {α : Type}

def one (p : Char → Bool) : Scan Char := fun t =>
  match t.chars with
  | c :: _ => if p c then some (c, t.drop 1) else none
  | [] => none

def char (c : Char) : Scan Unit := do
  let _ ← one (· == c)

def word : List Char → Scan Unit
  | [] => pure ()
  | c :: rest => do
    char c
    word rest

/-- Takes the longest run of characters of a class. -/
def run (p : Char → Bool) : Scan (List Char) := fun t =>
  let taken := t.chars.takeWhile p
  some (taken, t.drop taken.length)

/-- Takes exactly so many characters of a class. -/
def exactly (p : Char → Bool) : Nat → Scan (List Char)
  | 0 => pure []
  | n + 1 => do
    let c ← one p
    let rest ← exactly p n
    return c :: rest

/-- Repeats a scan as long as it takes something, after what was taken before, the latest
first. -/
def manyOnto (s : Scan α) (before : List α) (t : Input) : List α × Input :=
  match s t with
  | none => (before.reverse, t)
  | some (a, rest) =>
    if _ : rest.count < t.count then manyOnto s (a :: before) rest else (before.reverse, t)
termination_by t.count

/-- Repeats a scan as long as it takes something. -/
def many (s : Scan α) : Scan (List α) := fun t => some (manyOnto s [] t)

/-- One or more, with a separator in between. -/
def separated (s : Scan α) (separator : Char) : Scan (List α) := do
  let first ← s
  let more ← many do
    char separator
    s
  return first :: more

/-- The text that a scan takes, as it is written. -/
def written (s : Scan α) : Scan String := fun t =>
  match s t with
  | some (_, rest) => some (String.ofList (t.chars.take (t.count - rest.count)), rest)
  | none => none

/-- Succeeds at the end of the input alone. -/
def finish : Scan Unit := fun t => if t.chars.isEmpty then some ((), t) else none

end Scan

/-! ## Blanks, line ends and comments -/

def isBlank (c : Char) : Bool := c == ' ' || c == '\t'

/-- A character that ends no line and controls nothing. -/
def isPrinting (c : Char) : Bool := c == '\t' || (32 ≤ c.toNat && c.toNat ≠ 127)

def blanks : Scan Unit := do
  let _ ← Scan.run isBlank

/-- A line feed, which a carriage return may precede. -/
def newline : Scan Unit := Scan.char '\n' <|> Scan.word ['\r', '\n']

/-- From a number sign to the end of the line. -/
def comment : Scan Unit := do
  Scan.char '#'
  let _ ← Scan.run isPrinting

/-- The end of a line: blanks, a comment if there is one, and a newline or the end of the text. -/
def lineEnd : Scan Unit := do
  blanks
  let _ ← optional comment
  newline <|> Scan.finish

/-- Blanks, newlines and whole-line comments in any number. -/
def spacing : Scan Unit := do
  let _ ← @Scan.many Unit <|
    (do let _ ← Scan.one isBlank) <|> newline <|> (do comment; newline)

end EmulatorOutput.Toml
