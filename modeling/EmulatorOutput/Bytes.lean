import EmulatorOutput.Fault

/-!
# Bytes

Words as bytes, and overwriting a stretch of a byte array. A write is described by what it
leaves at each position: the new bytes inside the stretch, the old ones outside it.
-/

namespace EmulatorOutput.Bytes

/-- The bytes of a 16-bit word, low byte first. -/
def little16 (w : UInt16) : List UInt8 := [w.toUInt8, (w >>> 8).toUInt8]

/-- The bytes of a 16-bit word, high byte first. -/
def big16 (w : UInt16) : List UInt8 := [(w >>> 8).toUInt8, w.toUInt8]

/-- The bytes of a 32-bit word, low byte first. -/
def little32 (w : UInt32) : List UInt8 :=
  [w.toUInt8, (w >>> 8).toUInt8, (w >>> 16).toUInt8, (w >>> 24).toUInt8]

/-- The 16-bit word with the given low and high byte. -/
def word16 (low high : UInt8) : UInt16 := low.toUInt16 ||| (high.toUInt16 <<< 8)

/-- Signed samples as bytes, each low byte first. -/
def ofSamples (samples : List Int16) : List UInt8 :=
  samples.flatMap fun x => little16 x.toUInt16

/-- Overwrites the bytes from `start` on. What would fall behind the end is dropped. -/
def writeAt (a : Array UInt8) (start : Nat) : List UInt8 → Array UInt8
  | [] => a
  | b :: bs => writeAt (a.setIfInBounds start b) (start + 1) bs

@[simp] theorem length_little16 (w : UInt16) : (little16 w).length = 2 := rfl

@[simp] theorem length_big16 (w : UInt16) : (big16 w).length = 2 := rfl

@[simp] theorem length_little32 (w : UInt32) : (little32 w).length = 4 := rfl

@[simp] theorem ofSamples_nil : ofSamples [] = [] := rfl

@[simp] theorem ofSamples_append (xs ys : List Int16) :
    ofSamples (xs ++ ys) = ofSamples xs ++ ofSamples ys := by
  simp [ofSamples]

@[simp] theorem length_ofSamples (xs : List Int16) :
    (ofSamples xs).length = 2 * xs.length := by
  induction xs with
  | nil => rfl
  | cons x xs ih => simp_all [ofSamples]; omega

@[simp] theorem size_writeAt (a : Array UInt8) (start : Nat) (bs : List UInt8) :
    (writeAt a start bs).size = a.size := by
  induction bs generalizing a start with
  | nil => rfl
  | cons b bs ih => simp [writeAt, ih]

theorem writeAt_append (a : Array UInt8) (start : Nat) (xs ys : List UInt8) :
    writeAt a start (xs ++ ys) = writeAt (writeAt a start xs) (start + xs.length) ys := by
  induction xs generalizing a start with
  | nil => rfl
  | cons x xs ih => simp [writeAt, ih, Nat.add_assoc, Nat.add_comm 1]

theorem writeAt_append_left {a : Array UInt8} {start : Nat} (z : Array UInt8) (bs : List UInt8)
    (h : start + bs.length ≤ a.size) : writeAt (a ++ z) start bs = writeAt a start bs ++ z := by
  induction bs generalizing a start with
  | nil => rfl
  | cons b bs ih =>
    simp only [List.length_cons] at h
    rw [writeAt, writeAt, Array.setIfInBounds_append_left (by omega), ih (by simp; omega)]

theorem getElem?_writeAt_of_lt {a : Array UInt8} {start i : Nat} (bs : List UInt8)
    (h : i < start) : (writeAt a start bs)[i]? = a[i]? := by
  induction bs generalizing a start with
  | nil => rfl
  | cons b bs ih =>
    rw [writeAt, ih (by omega), Array.getElem?_setIfInBounds_ne (by omega)]

theorem getElem?_writeAt_of_le {a : Array UInt8} {start i : Nat} (bs : List UInt8)
    (h : start + bs.length ≤ i) : (writeAt a start bs)[i]? = a[i]? := by
  induction bs generalizing a start with
  | nil => rfl
  | cons b bs ih =>
    simp only [List.length_cons] at h
    rw [writeAt, ih (by omega), Array.getElem?_setIfInBounds_ne (by omega)]

theorem getElem?_writeAt_of_mem {a : Array UInt8} {start i : Nat} (bs : List UInt8)
    (hi : i < bs.length) (hs : start + bs.length ≤ a.size) :
    (writeAt a start bs)[start + i]? = bs[i]? := by
  induction bs generalizing a start i with
  | nil => simp at hi
  | cons b bs ih =>
    simp only [List.length_cons] at hi hs
    rw [writeAt]
    cases i with
    | zero =>
      rw [getElem?_writeAt_of_lt _ (by omega)]
      simp [show start < a.size by omega]
    | succ i =>
      have := @ih (a.setIfInBounds start b) (start + 1) i (by omega) (by simp; omega)
      rw [show start + (i + 1) = start + 1 + i by omega, this]
      rfl

/-- A write replaces a stretch and keeps what is before and behind it. -/
theorem writeAt_eq_append {a : Array UInt8} {start : Nat} {bs : List UInt8}
    (h : start + bs.length ≤ a.size) :
    writeAt a start bs =
      a.extract 0 start ++ bs.toArray ++ a.extract (start + bs.length) a.size := by
  apply Array.ext_getElem?
  intro i
  rw [Array.getElem?_append, Array.getElem?_append]
  simp only [Array.size_append, Array.size_extract, List.size_toArray, Nat.sub_zero,
    Array.getElem?_extract, Nat.zero_add]
  by_cases h₁ : i < start
  · rw [getElem?_writeAt_of_lt _ h₁, if_pos (by omega), if_pos (by omega), if_pos (by omega)]
  · by_cases h₂ : i < start + bs.length
    · have := getElem?_writeAt_of_mem (i := i - start) bs (by omega) h
      rw [Nat.add_sub_cancel' (by omega)] at this
      rw [this, if_pos (by omega), if_neg (by omega), List.getElem?_toArray]
      congr 1
      omega
    · rw [getElem?_writeAt_of_le _ (by omega), if_neg (by omega)]
      by_cases h₃ : i < a.size
      · rw [if_pos (by omega)]
        congr 1
        omega
      · rw [if_neg (by omega), Array.getElem?_eq_none (by omega)]

end EmulatorOutput.Bytes
