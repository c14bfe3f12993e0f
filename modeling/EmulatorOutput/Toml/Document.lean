import EmulatorOutput.Toml.Moment
import EmulatorOutput.Toml.Table

/-!
# TOML documents

The grammar of keys, values and lines, and the entries that the lines of a document make.
-/

namespace EmulatorOutput.Toml

/-! ## Keys -/

/-- The most parts of a key, and the most brackets that a value stands in. -/
def nestingLimit : Nat := 79

/-- The characters of a name without quotes. -/
def isNameChar (c : Char) : Bool := c.isAlphanum || c == '_' || c == '-'

/-- A part of a key, with blanks around it. -/
def keyPart : Scan String := do
  blanks
  let name ← basicText <|> literalText <|> do
    let first ← Scan.one isNameChar
    let more ← Scan.run isNameChar
    return String.ofList (first :: more)
  blanks
  return name

def key : Scan Key := do
  let parts ← Scan.separated keyPart '.'
  match Key.ofParts? parts with
  | some k => if parts.length ≤ nestingLimit then return k else failure
  | none => failure

/-! ## Values -/

def boolean : Scan Value :=
  (do Scan.word ['t', 'r', 'u', 'e']; return .boolean true) <|>
  (do Scan.word ['f', 'a', 'l', 's', 'e']; return .boolean false)

/-- The members of an array, given how one is read. They may stand on lines of their own, and a
comma may follow the last. -/
def arrayOf (member : Scan Value) : Scan Value := do
  Scan.char '['
  let items ← optional do
    let items ← Scan.separated (do spacing; let v ← member; spacing; return v) ','
    let _ ← optional (Scan.char ',')
    return items
  spacing
  Scan.char ']'
  return .array (items.getD [])

def pairOf (member : Scan Value) : Scan (Key × Value) := do
  let k ← key
  Scan.char '='
  blanks
  let v ← member
  return (k, v)

/-- The pairs of a table in braces, given how a value is read. They stand on one line. -/
def tableOf (member : Scan Value) : Scan Value := do
  Scan.char '\x7b'
  let pairs ← optional (Scan.separated (do let p ← pairOf member; blanks; return p) ',')
  blanks
  Scan.char '\x7d'
  match Entries.ofPairs? (pairs.getD []) with
  | some entries => return .table .closed entries
  | none => failure

def scalar : Scan Value :=
  (do return .text (← quotedText)) <|> moment <|> float <|> integer <|> boolean

/-- A value in which brackets are nested at most so deep. -/
def value : Nat → Scan Value
  | 0 => scalar
  | n + 1 => arrayOf (value n) <|> tableOf (value n) <|> scalar

/-! ## Lines -/

/-- A line of a document. -/
inductive Line where
  | blank
  | pair (key : Key) (value : Value)
  /-- The header of a table. -/
  | header (key : Key)
  /-- The header of a further row. -/
  | rowHeader (key : Key)

def line : Scan Line := do
  blanks
  let l ←
    (do Scan.word ['[', '[']; let k ← key; Scan.word [']', ']']; return .rowHeader k) <|>
    (do Scan.char '['; let k ← key; Scan.char ']'; return .header k) <|>
    (do let (k, v) ← pairOf (value nestingLimit); return .pair k v) <|>
    pure .blank
  lineEnd
  return l

/-- The lines of a document, which a byte order mark may precede. -/
def lines : Scan (List Line) := do
  let _ ← optional (Scan.char '\ufeff')
  let ls ← Scan.many line
  Scan.finish
  return ls

/-- A document under construction. -/
structure Draft where
  /-- What is defined so far. -/
  root : Entries := []
  /-- The table that the last header has opened. -/
  current : List String := []

namespace Draft

def add (d : Draft) : Line → Option Draft
  | .blank => some d
  | .pair k v => do
    let root ← Entries.alter .implied (Entries.insert k v) d.current .opened d.root
    return { d with root }
  | .header k => do
    let root ← Entries.openTable k .opened d.root
    return { root, current := k.path ++ [k.name] }
  | .rowHeader k => do
    let root ← Entries.openRow k .opened d.root
    return { root, current := k.path ++ [k.name] }

end Draft

/-- The entries of a document, if it is well-formed. -/
def parse (text : String) : Option Entries := do
  let (ls, _) ← lines (Input.ofText text)
  let d ← @List.foldlM Option _ Draft Line Draft.add {} ls
  return d.root

end EmulatorOutput.Toml
