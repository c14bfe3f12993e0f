import EmulatorOutput.Toml.Text
import EmulatorOutput.Toml.Value

/-!
# Numbers

Integers are written in base ten with an optional sign, or without one in base sixteen, eight or
two, and have to fit 64 bits. Floats have a fraction, an exponent or both, and may not exceed
the largest double.
-/

namespace EmulatorOutput.Toml

/-- Digits of a class, between which single underscores may stand. -/
def digits (p : Char → Bool) : Scan (List Char) := do
  let first ← Scan.one p
  let more ← Scan.many (Scan.one p <|> (do Scan.char '_'; Scan.one p))
  return first :: more

/-- Whether a minus sign stands here. A plus sign may. -/
def sign : Scan Bool :=
  (do Scan.char '-'; return true) <|> (do Scan.char '+'; return false) <|> pure false

/-- The digits of a whole number, of which zero has but one. -/
def wholeDigits : Scan (List Char) :=
  (do Scan.char '0'; return ['0']) <|> digits Char.isDigit

/-- The integers a value can hold. -/
def fits (n : Int) : Bool := Int64.minValue.toInt ≤ n && n ≤ Int64.maxValue.toInt

def decimalInteger : Scan Value := do
  let negative ← sign
  let n := Int.ofNat (ofDigits 10 (← wholeDigits))
  let n := if negative then -n else n
  if fits n then return .integer n else failure

/-- An integer in another base, after its mark. -/
def basedInteger (mark : Char) (base : Nat) (p : Char → Bool) : Scan Value := do
  Scan.word ['0', mark]
  let n := Int.ofNat (ofDigits base (← digits p))
  if fits n then return .integer n else failure

def integer : Scan Value :=
  basedInteger 'x' 16 isHexDigit <|> basedInteger 'o' 8 (fun c => '0' ≤ c && c ≤ '7') <|>
    basedInteger 'b' 2 (fun c => c == '0' || c == '1') <|> decimalInteger

def fraction : Scan (List Char) := do
  Scan.char '.'
  digits Char.isDigit

def exponent : Scan Int := do
  let _ ← Scan.one fun c => c == 'e' || c == 'E'
  let negative ← sign
  let n := Int.ofNat (ofDigits 10 (← digits Char.isDigit))
  return if negative then -n else n

/-- The least number that is nearer to two to the power 1024 than to any double, or as near. -/
def overflowBound : Nat := 1 <<< 1024 - 1 <<< 970

/-- Whether a decimal is at the overflow bound or beyond. The count of its digits decides unless
it is close. -/
def overflows (mantissa : List Char) (power : Int) : Bool :=
  let mantissa := mantissa.dropWhile (· == '0')
  let places := Int.ofNat mantissa.length + power
  if mantissa.isEmpty || places < 300 then false
  else if 320 < places then true
  else if 0 ≤ power then overflowBound ≤ ofDigits 10 mantissa * Nat.pow 10 power.toNat
  else overflowBound * Nat.pow 10 (-power).toNat ≤ ofDigits 10 mantissa

/-- A float of digits. Only a positive one can be too large: a negative one becomes the negative
infinity. -/
def decimalFloat : Scan Unit := do
  let negative ← sign
  let whole ← wholeDigits
  let (places, power) ←
    (do return ([], ← exponent)) <|>
    (do let places ← fraction
        let power ← optional exponent
        return (places, power.getD 0))
  if !negative && overflows (whole ++ places) (power - places.length) then failure

/-- An infinity or a number that is none. -/
def specialFloat : Scan Unit := do
  let _ ← sign
  Scan.word ['i', 'n', 'f'] <|> Scan.word ['n', 'a', 'n']

def float : Scan Value := do
  return .float (← Scan.written (decimalFloat <|> specialFloat))

end EmulatorOutput.Toml
