import EmulatorOutput.Bytes

/-!
# Memory

Memory has a fixed size, is zero at first and is mostly written from the front. It may be far
larger than what is ever written, so only the front is kept; the bytes behind it are zero.
`Memory.bytes` is all of it, and every operation is described by what it does to these bytes.
-/

namespace EmulatorOutput

/-- Memory of a fixed size that is zero behind its front. -/
structure Memory where
  front : Array UInt8
  size : Nat
  front_le : front.size ≤ size
  deriving DecidableEq, Repr

namespace Memory

def blank (size : Nat) : Memory where
  front := #[]
  size
  front_le := Nat.zero_le _

def ofBytes (bytes : Array UInt8) : Memory where
  front := bytes
  size := bytes.size
  front_le := Nat.le_refl _

def filled (size : Nat) (v : UInt8) : Memory :=
  if v = 0 then blank size else ofBytes (Array.replicate size v)

/-- All bytes: the front over zeros. -/
def bytes (m : Memory) : Array UInt8 :=
  if m.front.size = m.size then m.front
  else Bytes.writeAt (Array.replicate m.size 0) 0 m.front.toList

def get (m : Memory) (i : Nat) : UInt8 := m.front.getD i 0

/-- Keeps at least so many bytes as the front. -/
def grow (m : Memory) (count : Nat) : Memory :=
  if h : m.front.size < count ∧ count ≤ m.size then
    { front := m.front ++ Array.replicate (count - m.front.size) 0
      size := m.size
      front_le := by
        rw [Array.size_append, Array.size_replicate]
        omega }
  else m

/-- Overwrites bytes of the front from `start` on. What would fall behind the front is dropped. -/
def writeFront (m : Memory) (start : Nat) (bs : List UInt8) : Memory where
  front := Bytes.writeAt m.front start bs
  size := m.size
  front_le := by
    rw [Bytes.size_writeAt]
    exact m.front_le

/-- Overwrites the bytes from `start` on. What would fall behind the end is dropped. -/
def write (m : Memory) (start : Nat) (bs : List UInt8) : Memory :=
  (m.grow (min (start + bs.length) m.size)).writeFront start bs

/-- Blanks so many bytes, from the first on. The front stays as long as it is. -/
def erase (m : Memory) (count : Nat) : Memory where
  front :=
    if m.front.size ≤ count then Array.replicate m.front.size 0
    else Bytes.writeAt m.front 0 (List.replicate count 0)
  size := m.size
  front_le := by
    have := m.front_le
    split
    · rwa [Array.size_replicate]
    · rwa [Bytes.size_writeAt]

/-- The bytes from `start` up to `stop`, as far as there are any. -/
def extract (m : Memory) (start stop : Nat) : Array UInt8 :=
  m.front.extract start stop ++
    Array.replicate (min stop m.size - max start m.front.size) 0

/-- The bytes from `start` up to `stop`, which must be there in this order. -/
def slice (m : Memory) (start stop : Nat) : Except Fault (Array UInt8) :=
  if start ≤ stop ∧ stop ≤ m.size then .ok (m.extract start stop) else .error .outOfRange

/-- Whether all bytes from a position on are zero. -/
def isZeroFrom (m : Memory) (start : Nat) : Bool := m.front.all (· == 0) start m.front.size

@[simp] theorem size_bytes (m : Memory) : m.bytes.size = m.size := by
  unfold bytes
  split
  · assumption
  · rw [Bytes.size_writeAt, Array.size_replicate]

/-- Memory is its front, and zeros behind it. -/
theorem bytes_eq_append (m : Memory) :
    m.bytes = m.front ++ Array.replicate (m.size - m.front.size) 0 := by
  have hle := m.front_le
  unfold bytes
  split
  · rename_i h
    simp [h]
  apply Array.ext_getElem?
  intro i
  rw [Array.getElem?_append]
  split
  · rename_i hi
    have h : (Bytes.writeAt (Array.replicate m.size 0) 0 m.front.toList)[0 + i]? =
        m.front.toList[i]? :=
      Bytes.getElem?_writeAt_of_mem _ (by simpa using hi) (by simpa using hle)
    simpa using h
  · rename_i hi
    rw [Bytes.getElem?_writeAt_of_le _ (by simp; omega)]
    simp only [Array.getElem?_replicate]
    congr 1
    simp
    omega

@[simp] theorem bytes_blank (size : Nat) : (blank size).bytes = Array.replicate size 0 := by
  simp [bytes_eq_append, blank]

@[simp] theorem bytes_ofBytes (a : Array UInt8) : (ofBytes a).bytes = a := by
  simp [bytes_eq_append, ofBytes]

@[simp] theorem bytes_filled (size : Nat) (v : UInt8) :
    (filled size v).bytes = Array.replicate size v := by
  unfold filled
  split
  · rename_i h
    rw [bytes_blank, h]
  · rw [bytes_ofBytes]

@[simp] theorem size_filled (size : Nat) (v : UInt8) : (filled size v).size = size := by
  rw [← size_bytes, bytes_filled, Array.size_replicate]

@[simp] theorem size_grow (m : Memory) (count : Nat) : (m.grow count).size = m.size := by
  unfold grow
  split <;> rfl

@[simp] theorem bytes_grow (m : Memory) (count : Nat) : (m.grow count).bytes = m.bytes := by
  unfold grow
  split
  · rename_i h
    simp only [bytes_eq_append, Array.size_append, Array.size_replicate, Array.append_assoc,
      Array.replicate_append_replicate]
    congr 2
    omega
  · rfl

theorem le_size_front_grow {m : Memory} {count : Nat} (h : count ≤ m.size) :
    count ≤ (m.grow count).front.size := by
  unfold grow
  split
  · simp only [Array.size_append, Array.size_replicate]
    omega
  · omega

theorem bytes_writeFront {m : Memory} {start : Nat} {bs : List UInt8}
    (h : min (start + bs.length) m.size ≤ m.front.size) :
    (m.writeFront start bs).bytes = Bytes.writeAt m.bytes start bs := by
  have := m.front_le
  rw [bytes_eq_append, bytes_eq_append, writeFront, Bytes.size_writeAt]
  by_cases hin : start + bs.length ≤ m.front.size
  · rw [Bytes.writeAt_append_left _ _ hin]
  · have hz : m.size - m.front.size = 0 := by omega
    simp [hz]

@[simp] theorem size_write (m : Memory) (start : Nat) (bs : List UInt8) :
    (m.write start bs).size = m.size := by
  simp [write, writeFront]

@[simp] theorem bytes_write (m : Memory) (start : Nat) (bs : List UInt8) :
    (m.write start bs).bytes = Bytes.writeAt m.bytes start bs := by
  have h := le_size_front_grow (m := m) (Nat.min_le_right (start + bs.length) m.size)
  rw [write, bytes_writeFront (by simpa using h), bytes_grow]

@[simp] theorem size_erase (m : Memory) (count : Nat) : (m.erase count).size = m.size := rfl

theorem bytes_erase (m : Memory) (count : Nat) :
    (m.erase count).bytes =
      Array.replicate (min count m.size) 0 ++ m.bytes.extract count m.size := by
  have hle := m.front_le
  rw [bytes_eq_append m, Array.extract_append, Array.extract_replicate, erase, bytes_eq_append]
  dsimp only
  by_cases h : m.front.size ≤ count
  · rw [if_pos h, Array.size_replicate, Array.extract_empty_of_size_le_start h, Array.empty_append,
      Array.replicate_append_replicate, Array.replicate_append_replicate]
    congr 1
    omega
  · rw [if_neg h, Bytes.size_writeAt,
      Bytes.writeAt_eq_append (by rw [List.length_replicate]; omega)]
    simp only [List.length_replicate, Nat.zero_add, Array.extract_zero, Array.empty_append,
      List.toArray_replicate, Array.append_assoc]
    congr 1
    · congr 1
      omega
    · congr 1
      · rw [Array.extract_eq_extract_right]
        omega
      · congr 1
        omega

theorem bytes_extract (m : Memory) (start stop : Nat) :
    m.extract start stop = m.bytes.extract start stop := by
  have := m.front_le
  rw [bytes_eq_append, Array.extract_append, Array.extract_replicate, extract]
  congr 2
  omega

theorem get_eq_getElem? (m : Memory) (i : Nat) (h : i < m.size) : m.bytes[i]? = some (m.get i) := by
  have := m.front_le
  rw [bytes_eq_append, Array.getElem?_append]
  split
  · rename_i hi
    simp [get, Array.getD, hi]
  · rename_i hi
    rw [Array.getElem?_replicate]
    simp [get, Array.getD, hi]
    omega

end Memory

end EmulatorOutput
