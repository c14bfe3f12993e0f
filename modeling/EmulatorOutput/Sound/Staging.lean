import EmulatorOutput.Memory
import EmulatorOutput.Notice
import EmulatorOutput.Sound.Alignment

/-!
# Staging buffers

Device periods are assembled in zeroed buffers of an aligned size. A pool rotates through at
least two of them: one is the work buffer that is being filled, the others are with the device
or free. Rotation closes the work buffer and goes on to the next one in the circle.
-/

namespace EmulatorOutput.Sound

/-- A buffer of aligned size that holds whole 16-bit samples. -/
structure StagingBuffer where
  memory : Memory
  align : Nat

namespace StagingBuffer

def bytes (b : StagingBuffer) : Array UInt8 := b.memory.bytes

def size (b : StagingBuffer) : Nat := b.memory.size

/-- The number of samples it has room for. -/
def sampleCount (b : StagingBuffer) : Nat := b.size / 2

/-- Sizes that a block of memory with the given alignment may have. -/
def Allocatable (size align : Nat) : Prop := isPowerOfTwo align ∧ size + align ≤ Word.limit / 2

instance (size align : Nat) : Decidable (Allocatable size align) :=
  inferInstanceAs (Decidable (_ ∧ _))

/-- A zeroed buffer, if the size is a whole and positive number of samples, size and alignment
make a block, and the memory is granted. `role` names the buffer in a refusal. -/
def allocate (granted : Bool) (size align : Nat) (role : String) :
    Except Failure StagingBuffer :=
  let align := max align 2
  if size ≠ 0 ∧ size % 2 = 0 ∧ Allocatable size align ∧ granted then
    .ok { memory := Memory.blank size, align }
  else .error (.allocationFailed role size align)

def sample (b : StagingBuffer) (i : Nat) : Except Fault Int16 :=
  if i < b.sampleCount then
    .ok (Bytes.word16 (b.memory.get (2 * i)) (b.memory.get (2 * i + 1))).toInt16
  else .error .outOfRange

def setByte (b : StagingBuffer) (i : Nat) (v : UInt8) : Except Fault StagingBuffer :=
  if i < b.size then .ok { b with memory := b.memory.write i [v] } else .error .outOfRange

def writeSamples (b : StagingBuffer) (start : Nat) (samples : List Int16) :
    Except Fault StagingBuffer :=
  if start + samples.length ≤ b.sampleCount then
    .ok { b with memory := b.memory.write (2 * start) (Bytes.ofSamples samples) }
  else .error .outOfRange

end StagingBuffer

/-- Decides which requests for memory are granted: the number of requests before, and the size
and the alignment asked for. -/
abbrev Allocator := Nat → Nat → Nat → Bool

/-- Grants every request for which a block of less than 2^35 bytes is sure to have room. -/
def Allocator.standard : Allocator := fun _ size align => size + align < 1 <<< 35

/-- A circle of staging buffers with its work buffer. -/
structure StagingPool where
  buffers : Array StagingBuffer
  work : Nat
  work_lt : work < buffers.size

namespace StagingPool

/-- The bytes in which the pool keeps track of one buffer. -/
def slotBytes : Nat := 24

/-- The number of buffers in a pool for which so many are asked: at least two. -/
def bufferCount (asked : Nat) : Nat := max asked 2

/-- The bytes in which a pool keeps track of its buffers. -/
def tableBytes (asked : Nat) : Nat := bufferCount asked * slotBytes

/-- The buffers of a pool, the work buffer first. They are blank, and the first that is refused
ends the allocation. -/
def allocateAll (grants : Allocator) (size align count : Nat) :
    Except Failure (Array StagingBuffer) :=
  match StagingBuffer.allocate (grants 0 size align) size align "audio work" with
  | .error e => .error e
  | .ok blank =>
    if (List.range count).all fun i => grants i size align then
      .ok (Array.replicate count blank)
    else .error (.allocationFailed "audio io" size blank.align)

theorem size_allocateAll {grants : Allocator} {size align count : Nat}
    {bs : Array StagingBuffer} (h : allocateAll grants size align count = .ok bs) :
    bs.size = count := by
  unfold allocateAll at h
  split at h
  · cases h
  · split at h
    · cases h
      simp
    · cases h

/-- A pool of zeroed buffers, at least two. -/
def allocate (grants : Allocator) (count size align : Nat) : Logged Stop StagingPool :=
  let buffers := bufferCount count
  if Word.maxBytes < tableBytes count then Logged.stop (.fault .capacity)
  else
    match h : allocateAll grants size align buffers with
    | .error e => Logged.stop (.failure e)
    | .ok bs => do
      Logged.note .debug s!"Allocated {buffers} staging buffers of {size} bytes (align {align})"
      return {
        buffers := bs
        work := 0
        work_lt := by
          rw [size_allocateAll h]
          exact Nat.lt_of_lt_of_le (by decide) (Nat.le_max_right count 2) }

def workBuffer (p : StagingPool) : StagingBuffer :=
  have := p.work_lt
  p.buffers[p.work]

/-- Overwrites samples of the work buffer from `start` on. -/
def writeWork (p : StagingPool) (start : Nat) (samples : List Int16) :
    Except Fault StagingPool := do
  let b ← p.workBuffer.writeSamples start samples
  return { p with
    buffers := p.buffers.setIfInBounds p.work b
    work_lt := by simpa using p.work_lt }

/-- Closes the work buffer and goes on to the next. The closed buffer is the former
`work`. -/
def rotate (p : StagingPool) : StagingPool :=
  { p with
    work := (p.work + 1) % p.buffers.size
    work_lt := Nat.mod_lt _ (Nat.lt_of_le_of_lt (Nat.zero_le _) p.work_lt) }

@[simp] theorem size_rotate (p : StagingPool) : p.rotate.buffers.size = p.buffers.size := rfl

@[simp] theorem work_rotate (p : StagingPool) :
    p.rotate.work = (p.work + 1) % p.buffers.size := rfl

end StagingPool

end EmulatorOutput.Sound
