import EmulatorOutput.Toml.Scan

/-!
# Quoted text

Text in double quotes knows escapes, text in single quotes does not. Three quotes open a text
that may run over several lines. A newline right after the opening is no part of it, every other
newline counts as a line feed, and one or two quotes inside it, or right before its end, stand
for themselves.
-/

namespace EmulatorOutput.Toml

def hexValue (c : Char) : Nat :=
  if c.isDigit then c.toNat - '0'.toNat else c.toLower.toNat - 'a'.toNat + 10

/-- A digit of base sixteen in either case. -/
def isHexDigit (c : Char) : Bool :=
  c.isDigit || ('a' ≤ c && c ≤ 'f') || ('A' ≤ c && c ≤ 'F')

/-- The number that digits of a base make. -/
def ofDigits (base : Nat) (digits : List Char) : Nat :=
  digits.foldl (fun n c => n * base + hexValue c) 0

/-- A code point of so many hexadecimal digits. It has to be a character. -/
def codePoint (digits : Nat) : Scan Char := do
  let n := ofDigits 16 (← Scan.exactly isHexDigit digits)
  if n.isValidChar then return Char.ofNat n else failure

/-- What follows a backslash. -/
def escape : Scan Char := do
  match ← Scan.one (fun _ => true) with
  | 'b' => return '\x08'
  | 't' => return '\t'
  | 'n' => return '\n'
  | 'f' => return '\x0c'
  | 'r' => return '\r'
  | '"' => return '"'
  | '\\' => return '\\'
  | 'u' => codePoint 4
  | 'U' => codePoint 8
  | _ => failure

/-- A character that stands for itself between double quotes. -/
def isPlain (c : Char) : Bool := isPrinting c && c != '"' && c != '\\'

/-- A character that stands for itself between single quotes. -/
def isLiteral (c : Char) : Bool := isPrinting c && c != '\''

/-- A text in double quotes on one line. -/
def basicText : Scan String := do
  Scan.char '"'
  let cs ← Scan.many (Scan.one isPlain <|> (do Scan.char '\\'; escape))
  Scan.char '"'
  return String.ofList cs

/-- A text in single quotes on one line. -/
def literalText : Scan String := do
  Scan.char '\''
  let cs ← Scan.run isLiteral
  Scan.char '\''
  return String.ofList cs

/-- One or two quotes inside a text of several lines. -/
def innerQuotes (quote : Char) : Scan (List Char) := do
  let run ← Scan.run (· == quote)
  if run.length < 3 then return run else failure

/-- The three quotes at the end, and up to two before them that belong to the text. -/
def closingQuotes (quote : Char) : Scan (List Char) := fun t =>
  let run := (t.chars.takeWhile (· == quote)).length
  if run < 3 then none
  else
    let inner := min (run - 3) 2
    some (List.replicate inner quote, t.drop (inner + 3))

/-- A text between triple quotes, given what it is made of. -/
def longText (quote : Char) (piece : Scan (List Char)) : Scan String := do
  Scan.word [quote, quote, quote]
  let _ ← optional newline
  let pieces ← Scan.many (piece <|> (do newline; return ['\n']) <|> innerQuotes quote)
  let last ← closingQuotes quote
  return String.ofList (pieces.flatten ++ last)

/-- A backslash at the end of a line, with all blanks and newlines up to what follows. -/
def continuation : Scan Unit := do
  blanks
  newline
  let _ ← Scan.many ((do let _ ← Scan.one isBlank) <|> newline)

def longBasicText : Scan String :=
  longText '"' <|
    (do return [← Scan.one isPlain]) <|>
    (do Scan.char '\\'; continuation; return []) <|>
    (do Scan.char '\\'; return [← escape])

def longLiteralText : Scan String := longText '\'' (do return [← Scan.one isLiteral])

/-- A text in any of the four forms. -/
def quotedText : Scan String := longBasicText <|> basicText <|> longLiteralText <|> literalText

end EmulatorOutput.Toml
