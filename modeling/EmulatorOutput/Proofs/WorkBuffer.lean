import EmulatorOutput.Sound.Staging

/-!
# Filling the work buffer

Writing a run of samples at once or in two parts leaves the same buffers, down to how much of
the memory is kept. A write in range changes the work buffer only, and what was written before
stays in front of it.
-/

namespace EmulatorOutput

namespace Memory

theorem front_grow {m : Memory} {count : Nat} (h : count ≤ m.size) :
    (m.grow count).front = m.front ++ Array.replicate (count - m.front.size) 0 := by
  unfold grow
  split
  · rfl
  · have hz : count - m.front.size = 0 := by omega
    rw [hz, Array.replicate_zero, Array.append_empty]

theorem ext {m m' : Memory} (hf : m.front = m'.front) (hs : m.size = m'.size) : m = m' := by
  cases m; cases m'; cases hf; cases hs; rfl

/-- Two writes in a row are one write, as long as the second begins inside the memory. -/
theorem write_append {m : Memory} {start : Nat} (xs ys : List UInt8)
    (h : start + xs.length ≤ m.size) :
    m.write start (xs ++ ys) = (m.write start xs).write (start + xs.length) ys := by
  have hm := m.front_le
  refine ext ?_ (by simp)
  have hxy : min (start + (xs ++ ys).length) m.size =
      min (start + xs.length + ys.length) m.size := by
    rw [List.length_append, Nat.add_assoc]
  have hx : min (start + xs.length) m.size = start + xs.length := Nat.min_eq_left h
  -- the longer front is the shorter one with zeros behind it
  have hsplit : (m.grow (min (start + xs.length + ys.length) m.size)).front =
      (m.grow (start + xs.length)).front ++
        Array.replicate (min (start + xs.length + ys.length) m.size -
          (m.grow (start + xs.length)).front.size) 0 := by
    rw [front_grow (Nat.min_le_right _ _), front_grow h, Array.append_assoc,
      Array.replicate_append_replicate, Array.size_append, Array.size_replicate]
    congr 2
    omega
  have hin : start + xs.length ≤ (m.grow (start + xs.length)).front.size :=
    le_size_front_grow h
  have hw : (m.write start xs).front =
      Bytes.writeAt (m.grow (start + xs.length)).front start xs := by
    rw [write, hx]
    rfl
  calc (m.write start (xs ++ ys)).front
      = Bytes.writeAt (Bytes.writeAt
          (m.grow (min (start + xs.length + ys.length) m.size)).front start xs)
          (start + xs.length) ys := by
        rw [← Bytes.writeAt_append, write, hxy]
        rfl
    _ = Bytes.writeAt ((m.write start xs).grow
          (min (start + xs.length + ys.length) (m.write start xs).size)).front
          (start + xs.length) ys := by
        rw [hsplit, Bytes.writeAt_append_left _ _ hin, front_grow (Nat.min_le_right _ _), hw,
          size_write, Bytes.size_writeAt]
    _ = ((m.write start xs).write (start + xs.length) ys).front := rfl

/-- After a write in range the bytes up to its end are the former ones up to its start, then
the new ones. -/
theorem extract_bytes_write {m : Memory} {start : Nat} (bs : List UInt8)
    (h : start + bs.length ≤ m.size) :
    (m.write start bs).bytes.extract 0 (start + bs.length) =
      m.bytes.extract 0 start ++ bs.toArray := by
  have hb : start + bs.length ≤ m.bytes.size := by rwa [size_bytes]
  have hsize : (m.bytes.extract 0 start ++ bs.toArray).size = start + bs.length := by
    simp only [Array.size_append, Array.size_extract, size_bytes]
    rw [List.size_toArray]
    omega
  have hleft := @Array.extract_append_left _ (m.bytes.extract 0 start ++ bs.toArray)
    (m.bytes.extract (start + bs.length) m.bytes.size)
  rw [Array.extract_size, hsize] at hleft
  rw [bytes_write, Bytes.writeAt_eq_append hb]
  exact hleft

end Memory

namespace Sound

namespace StagingBuffer

/-- The buffer with samples written from `start` on, in range or not. -/
def put (b : StagingBuffer) (start : Nat) (samples : List Int16) : StagingBuffer :=
  { b with memory := b.memory.write (2 * start) (Bytes.ofSamples samples) }

theorem writeSamples_eq (b : StagingBuffer) (start : Nat) (samples : List Int16) :
    b.writeSamples start samples =
      if start + samples.length ≤ b.sampleCount then .ok (b.put start samples)
      else .error .outOfRange := rfl

@[simp] theorem size_put (b : StagingBuffer) (start : Nat) (samples : List Int16) :
    (b.put start samples).size = b.size := by
  simp [put, size]

@[simp] theorem sampleCount_put (b : StagingBuffer) (start : Nat) (samples : List Int16) :
    (b.put start samples).sampleCount = b.sampleCount := by
  simp [sampleCount]

theorem put_append {b : StagingBuffer} {start : Nat} (xs ys : List Int16)
    (h : start + xs.length ≤ b.sampleCount) :
    b.put start (xs ++ ys) = (b.put start xs).put (start + xs.length) ys := by
  have hm : 2 * start + (Bytes.ofSamples xs).length ≤ b.memory.size := by
    rw [Bytes.length_ofSamples]
    have : b.sampleCount = b.memory.size / 2 := rfl
    omega
  have he : 2 * start + (Bytes.ofSamples xs).length = 2 * (start + xs.length) := by
    rw [Bytes.length_ofSamples]
    omega
  simp only [put, Bytes.ofSamples_append]
  rw [Memory.write_append _ _ hm, he]

/-- The samples up to the end of a write in range. -/
theorem extract_bytes_put {b : StagingBuffer} {start : Nat} (xs : List Int16)
    (h : start + xs.length ≤ b.sampleCount) :
    (b.put start xs).bytes.extract 0 (2 * (start + xs.length)) =
      b.bytes.extract 0 (2 * start) ++ (Bytes.ofSamples xs).toArray := by
  have hm : 2 * start + (Bytes.ofSamples xs).length ≤ b.memory.size := by
    rw [Bytes.length_ofSamples]
    have : b.sampleCount = b.memory.size / 2 := rfl
    omega
  have he : 2 * (start + xs.length) = 2 * start + (Bytes.ofSamples xs).length := by
    rw [Bytes.length_ofSamples]
    omega
  rw [he]
  exact Memory.extract_bytes_write _ hm

/-- Bytes behind the end of a write stay as they are. -/
theorem getElem?_put_of_le {b : StagingBuffer} {start i : Nat} (xs : List Int16)
    (h : 2 * (start + xs.length) ≤ i) : (b.put start xs).bytes[i]? = b.bytes[i]? := by
  have hend : 2 * start + (Bytes.ofSamples xs).length ≤ i := by
    rw [Bytes.length_ofSamples]
    omega
  rw [bytes, put, Memory.bytes_write, Bytes.getElem?_writeAt_of_le _ hend, bytes]

end StagingBuffer

namespace StagingPool

theorem ext {p q : StagingPool} (hb : p.buffers = q.buffers) (hw : p.work = q.work) : p = q := by
  cases p; cases q; cases hb; cases hw; rfl

/-- The pool with samples written to its work buffer from `start` on, in range or not. -/
def put (p : StagingPool) (start : Nat) (samples : List Int16) : StagingPool :=
  { p with
    buffers := p.buffers.setIfInBounds p.work (p.workBuffer.put start samples)
    work_lt := by simpa using p.work_lt }

theorem writeWork_eq (p : StagingPool) (start : Nat) (samples : List Int16) :
    p.writeWork start samples =
      if start + samples.length ≤ p.workBuffer.sampleCount then .ok (p.put start samples)
      else .error .outOfRange := by
  unfold writeWork
  rw [StagingBuffer.writeSamples_eq]
  split <;> rfl

@[simp] theorem size_put (p : StagingPool) (start : Nat) (samples : List Int16) :
    (p.put start samples).buffers.size = p.buffers.size := by
  simp [put]

@[simp] theorem workBuffer_put (p : StagingPool) (start : Nat) (samples : List Int16) :
    (p.put start samples).workBuffer = p.workBuffer.put start samples := by
  simp [put, workBuffer]

/-- Filling the work buffer leaves the others as they are. -/
theorem getElem?_put_of_ne {p : StagingPool} {i : Nat} (start : Nat) (samples : List Int16)
    (h : i ≠ p.work) : (p.put start samples).buffers[i]? = p.buffers[i]? :=
  Array.getElem?_setIfInBounds_ne (Ne.symm h)

/-- What is true of all buffers is true of all after a write that keeps it of the work buffer. -/
theorem forall_mem_put {p : StagingPool} {P : StagingBuffer → Prop} {start : Nat}
    {samples : List Int16} (h : ∀ b ∈ p.buffers, P b)
    (hwork : P p.workBuffer → P (p.workBuffer.put start samples)) :
    ∀ b ∈ (p.put start samples).buffers, P b := by
  intro b hb
  obtain hold | rfl := Array.mem_or_eq_of_mem_setIfInBounds hb
  · exact h b hold
  · exact hwork (h _ (Array.getElem_mem _))

theorem put_append {p : StagingPool} {start : Nat} (xs ys : List Int16)
    (h : start + xs.length ≤ p.workBuffer.sampleCount) :
    p.put start (xs ++ ys) = (p.put start xs).put (start + xs.length) ys := by
  refine ext ?_ rfl
  change p.buffers.setIfInBounds p.work (p.workBuffer.put start (xs ++ ys)) =
    (p.buffers.setIfInBounds p.work (p.workBuffer.put start xs)).setIfInBounds p.work
      ((p.put start xs).workBuffer.put (start + xs.length) ys)
  rw [workBuffer_put, StagingBuffer.put_append _ _ h, Array.setIfInBounds_setIfInBounds]

end StagingPool

end Sound

end EmulatorOutput
