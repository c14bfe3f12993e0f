import EmulatorOutput.Toml.Number

/-!
# Moments

Dates of the calendar, times of the day, and the two together, with or without an offset.
-/

namespace EmulatorOutput.Toml

/-- A number of exactly so many digits, within bounds. -/
def numeral (digits least most : Nat) : Scan Nat := do
  let n := ofDigits 10 (← Scan.exactly Char.isDigit digits)
  if least ≤ n ∧ n ≤ most then return n else failure

def isLeapYear (year : Nat) : Bool := year % 4 = 0 && (year % 100 ≠ 0 || year % 400 = 0)

def daysIn (year month : Nat) : Nat :=
  match month with
  | 2 => if isLeapYear year then 29 else 28
  | 4 | 6 | 9 | 11 => 30
  | _ => 31

def date : Scan Unit := do
  let year ← numeral 4 0 9999
  Scan.char '-'
  let month ← numeral 2 1 12
  Scan.char '-'
  let _ ← numeral 2 1 (daysIn year month)

/-- A time of the day. A minute may have a leap second. -/
def time : Scan Unit := do
  let _ ← numeral 2 0 23
  Scan.char ':'
  let _ ← numeral 2 0 59
  Scan.char ':'
  let _ ← numeral 2 0 60
  let _ ← optional do
    Scan.char '.'
    let _ ← Scan.one Char.isDigit
    Scan.run Char.isDigit

/-- The distance from universal time. -/
def offset : Scan Unit :=
  (do let _ ← Scan.one fun c => c == 'Z' || c == 'z') <|> do
    let _ ← Scan.one fun c => c == '+' || c == '-'
    let _ ← numeral 2 0 23
    Scan.char ':'
    let _ ← numeral 2 0 59

/-- A date, to which a time may be added. -/
def dateAndTime : Scan Unit := do
  date
  let _ ← optional do
    let _ ← Scan.one fun c => c == 'T' || c == 't' || c == ' '
    time
    let _ ← optional offset

def moment : Scan Value := do
  return .moment (← Scan.written (dateAndTime <|> time))

end EmulatorOutput.Toml
