/-!
# Decoding of text

Text is kept as bytes: a character is one byte, or a leading byte and up to three continuations.
`Decoding.text` reads any bytes. Where they are no text it puts one replacement character for the
longest start of a character that is there, or else for a single byte, and goes on behind it.
-/

namespace EmulatorOutput.Decoding

/-- A character that has begun: its bits so far, how many continuations are missing, and which
bytes may come next. -/
structure Begun where
  bits : Nat
  missing : Nat
  least : Nat := 0x80
  most : Nat := 0xBF
  deriving DecidableEq, Repr

/-- What was read, and the character that has begun. -/
structure State where
  read : String := ""
  begun : Option Begun := none

/-- The mark for what is no text. -/
def replacement : Char := '\uFFFD'

/-- What a leading byte begins. Characters are written as short as they can be, the largest is
10FFFF, and none lies between D800 and DFFF: this bounds the byte after some leading bytes. -/
def begun? (byte : Nat) : Option Begun :=
  if 0xC2 ≤ byte ∧ byte ≤ 0xDF then some { bits := byte - 0xC0, missing := 1 }
  else if byte = 0xE0 then some { bits := 0, missing := 2, least := 0xA0 }
  else if byte = 0xED then some { bits := 0xD, missing := 2, most := 0x9F }
  else if 0xE1 ≤ byte ∧ byte ≤ 0xEF then some { bits := byte - 0xE0, missing := 2 }
  else if byte = 0xF0 then some { bits := 0, missing := 3, least := 0x90 }
  else if 0xF1 ≤ byte ∧ byte ≤ 0xF3 then some { bits := byte - 0xF0, missing := 3 }
  else if byte = 0xF4 then some { bits := 4, missing := 3, most := 0x8F }
  else none

/-- Reads the first byte of a character. -/
def lead (read : String) (byte : Nat) : State :=
  if byte < 0x80 then { read := read.push (Char.ofNat byte) }
  else
    match begun? byte with
    | some b => { read, begun := some b }
    | none => { read := read.push replacement }

def step (s : State) (byte : UInt8) : State :=
  let byte := byte.toNat
  match s.begun with
  | none => lead s.read byte
  | some b =>
    if b.least ≤ byte ∧ byte ≤ b.most then
      let bits := b.bits * 64 + (byte - 0x80)
      if b.missing = 1 then { read := s.read.push (Char.ofNat bits) }
      else { read := s.read, begun := some { bits, missing := b.missing - 1 } }
    else lead (s.read.push replacement) byte

def text (bytes : ByteArray) : String :=
  let s := bytes.foldl step {}
  if s.begun.isSome then s.read.push replacement else s.read

end EmulatorOutput.Decoding
