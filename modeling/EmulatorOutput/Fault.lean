/-!
# Faults and checked arithmetic

Sizes, positions and times are natural numbers that stand for machine words. An operation
whose result would leave the word breaks off with a `Fault` instead of answering, and so do
a division by zero and an access outside a buffer. A theorem that a computation "cannot
break off" says that its outcome is never a fault.
-/

namespace EmulatorOutput

/-- Why a computation broke off without an answer. -/
inductive Fault where
  | addOverflow
  | subOverflow
  | mulOverflow
  | divByZero
  | remByZero
  | outOfRange
  /-- A collection was asked to hold more bytes than any collection may. -/
  | capacity
  /-- A loop made no progress and would never have ended. -/
  | stalled
  deriving DecidableEq, Repr

/-- The report of an arithmetic fault. The other faults have no fixed wording. -/
def Fault.message? : Fault → Option String
  | .addOverflow => some "attempt to add with overflow"
  | .subOverflow => some "attempt to subtract with overflow"
  | .mulOverflow => some "attempt to multiply with overflow"
  | .divByZero => some "attempt to divide by zero"
  | .remByZero => some "attempt to calculate the remainder with a divisor of zero"
  | .outOfRange | .capacity | .stalled => none

namespace Word

/-- The number of values of a machine word. -/
def limit : Nat := UInt64.size

/-- The most bytes one collection may hold. -/
def maxBytes : Nat := limit / 2 - 1

/-- A sum that has to stay below `bound`. -/
def addBelow (bound a b : Nat) : Except Fault Nat :=
  if a + b < bound then .ok (a + b) else .error .addOverflow

/-- A product that has to stay below `bound`. -/
def mulBelow (bound a b : Nat) : Except Fault Nat :=
  if a * b < bound then .ok (a * b) else .error .mulOverflow

def add (a b : Nat) : Except Fault Nat := addBelow limit a b

def mul (a b : Nat) : Except Fault Nat := mulBelow limit a b

/-- The difference of two words, which must not be negative. -/
def sub (a b : Nat) : Except Fault Nat :=
  if b ≤ a then .ok (a - b) else .error .subOverflow

def div (a b : Nat) : Except Fault Nat :=
  if b = 0 then .error .divByZero else .ok (a / b)

def rem (a b : Nat) : Except Fault Nat :=
  if b = 0 then .error .remByZero else .ok (a % b)

/-- The product, or the largest word where the product exceeds it. -/
def saturatingMul (a b : Nat) : Nat := min (a * b) (limit - 1)

/-- The product where it is a word. -/
def mul? (a b : Nat) : Option Nat := if a * b < limit then some (a * b) else none

theorem addBelow_eq_ok_iff {bound a b c : Nat} :
    addBelow bound a b = .ok c ↔ a + b < bound ∧ c = a + b := by
  by_cases h : a + b < bound <;> simp [addBelow, h, eq_comm]

theorem mulBelow_eq_ok_iff {bound a b c : Nat} :
    mulBelow bound a b = .ok c ↔ a * b < bound ∧ c = a * b := by
  by_cases h : a * b < bound <;> simp [mulBelow, h, eq_comm]

theorem add_eq_ok_iff {a b c : Nat} : add a b = .ok c ↔ a + b < limit ∧ c = a + b :=
  addBelow_eq_ok_iff

theorem mul_eq_ok_iff {a b c : Nat} : mul a b = .ok c ↔ a * b < limit ∧ c = a * b :=
  mulBelow_eq_ok_iff

theorem sub_eq_ok_iff {a b c : Nat} : sub a b = .ok c ↔ b ≤ a ∧ c = a - b := by
  by_cases h : b ≤ a <;> simp [sub, h, eq_comm]

theorem div_eq_ok_iff {a b c : Nat} : div a b = .ok c ↔ b ≠ 0 ∧ c = a / b := by
  by_cases h : b = 0 <;> simp [div, h, eq_comm]

theorem mul?_eq_some_iff {a b c : Nat} : mul? a b = some c ↔ a * b < limit ∧ c = a * b := by
  by_cases h : a * b < limit <;> simp [mul?, h, eq_comm]

end Word

end EmulatorOutput
