/-!
# Durations as text

A duration is shown in the largest unit of which it holds at least one: seconds, milliseconds,
microseconds or nanoseconds, with as many decimal places as it needs.
-/

namespace EmulatorOutput.Duration

/-- The digits of a fraction of `10 ^ places`, without the zeros at its end. -/
def fractionDigits (places fraction : Nat) : List Char :=
  let digits := Nat.toDigits 10 fraction
  let padded := List.replicate (places - digits.length) '0' ++ digits
  (padded.reverse.dropWhile (· == '0')).reverse

/-- So many nanoseconds in a unit of `10 ^ places` of them. -/
def inUnit (places : Nat) (symbol : String) (nanos : Nat) : String :=
  let whole := toString (nanos / Nat.pow 10 places)
  match fractionDigits places (nanos % Nat.pow 10 places) with
  | [] => whole ++ symbol
  | digits => whole ++ "." ++ String.ofList digits ++ symbol

def describe (nanos : Nat) : String :=
  if 1000000000 ≤ nanos then inUnit 9 "s" nanos
  else if 1000000 ≤ nanos then inUnit 6 "ms" nanos
  else if 1000 ≤ nanos then inUnit 3 "µs" nanos
  else inUnit 0 "ns" nanos

end EmulatorOutput.Duration
