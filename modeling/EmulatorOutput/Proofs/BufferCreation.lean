import EmulatorOutput.Picture.FrameBuffer
import EmulatorOutput.Proofs.NoticeLaws

/-!
# Creating a frame buffer

How creating a frame buffer ends, for every geometry. An unsound geometry is refused, and so is a
size that is no word. But between the most bytes that a collection may hold and the largest word
there is a gap: a size in it passes both checks, and then there can be no buffer of it.
-/

namespace EmulatorOutput.Picture

namespace FrameBuffer

/-- The rows are not empty, and none is longer than its place in the buffer. -/
def SoundGeometry (width height stride : Nat) : Prop := 0 < width ∧ 0 < height ∧ width ≤ stride

/-- Multiplying step by step leaves the words exactly if the product does. -/
theorem byteSize?_eq (stride height : Nat) (format : PixelFormat) :
    byteSize? stride height format =
      Word.mul? (stride * height) format.bytesPerPixel := by
  have hpixel : stride * height ≤ stride * height * format.bytesPerPixel :=
    Nat.le_mul_of_pos_right _ format.bytesPerPixel_pos
  unfold byteSize?
  by_cases hpixels : stride * height < Word.limit
  · rw [Word.mul?, if_pos hpixels]
    rfl
  · rw [Word.mul?, if_neg hpixels, Word.mul?, if_neg (by omega)]
    rfl

variable {width height stride : Nat} {format : PixelFormat}

theorem create_of_unsound (h : ¬ SoundGeometry width height stride) :
    (create width height stride format).outcome = .error (.failure (.invalidConfig
      s!"framebuffer {width}x{height} with stride {stride} is not valid")) := by
  have hbad : width = 0 ∨ height = 0 ∨ stride < width := by
    rw [SoundGeometry] at h
    omega
  unfold create
  rw [if_pos hbad]
  rfl

theorem create_of_no_word (h : SoundGeometry width height stride)
    (hsize : Word.limit ≤ stride * height * format.bytesPerPixel) :
    (create width height stride format).outcome = .error (.failure (.invalidConfig
      s!"framebuffer stride {stride} by {height} rows overflows the buffer size")) := by
  have hgood : ¬ (width = 0 ∨ height = 0 ∨ stride < width) := by
    rw [SoundGeometry] at h
    omega
  unfold create
  rw [if_neg hgood, byteSize?_eq, Word.mul?, if_neg (Nat.not_lt.mpr hsize)]
  rfl

/-- A size that is a word leaves it to the memory whether there is a frame buffer. -/
theorem create_of_word (h : SoundGeometry width height stride)
    (hsize : stride * height * format.bytesPerPixel < Word.limit) :
    (create width height stride format).outcome =
      let size := stride * height * format.bytesPerPixel
      if Word.maxBytes < size then .error (.fault .capacity)
      else .ok { width, height, stride, format, back := Memory.blank size,
                 front := Memory.blank size } := by
  have hgood : ¬ (width = 0 ∨ height = 0 ∨ stride < width) := by
    rw [SoundGeometry] at h
    omega
  unfold create
  rw [if_neg hgood, byteSize?_eq, Word.mul?, if_pos hsize]
  dsimp only
  rw [Logged.bind_of_ok (a := ()) rfl]
  dsimp only
  split
  · rfl
  · rfl

/-- A created frame buffer has two blank buffers of a size that can be had. -/
theorem eq_of_create {b : FrameBuffer}
    (h : (create width height stride format).outcome = .ok b) :
    let size := stride * height * format.bytesPerPixel
    size ≤ Word.maxBytes ∧
      b = { width, height, stride, format, back := Memory.blank size, front := Memory.blank size }
    := by
  intro size
  by_cases hsound : SoundGeometry width height stride
  · by_cases hword : size < Word.limit
    · rw [create_of_word hsound hword] at h
      dsimp only at h
      split at h
      · cases h
      · rename_i hbytes
        cases h
        exact ⟨Nat.le_of_not_lt hbytes, rfl⟩
    · rw [create_of_no_word hsound (Nat.le_of_not_lt hword)] at h
      cases h
  · rw [create_of_unsound hsound] at h
    cases h

/-- Creating a frame buffer comes to one of three ends. It breaks off just where the geometry is
sound and one buffer would need more bytes than a collection may hold, though its size is still a
word. It is refused, with the reason, where the geometry is unsound or the size is no word. Else
there are two buffers of that size, with nothing but zeros. -/
theorem create_endings (width height stride : Nat) (format : PixelFormat) :
    let size := stride * height * format.bytesPerPixel
    let sound := SoundGeometry width height stride
    let creation := (create width height stride format).outcome
    (∀ cause, creation = .error (.fault cause) ↔
      cause = .capacity ∧ sound ∧ Word.maxBytes < size ∧ size < Word.limit) ∧
    (∀ e, creation = .error (.failure e) ↔
      ¬ sound ∧ e = .invalidConfig
        s!"framebuffer {width}x{height} with stride {stride} is not valid" ∨
      sound ∧ Word.limit ≤ size ∧ e = .invalidConfig
        s!"framebuffer stride {stride} by {height} rows overflows the buffer size") ∧
    ((∃ b, creation = .ok b) ↔ sound ∧ size ≤ Word.maxBytes) ∧
    ∀ b, creation = .ok b → b.back.bytes = Array.replicate size 0 ∧
      b.front.bytes = Array.replicate size 0 := by
  intro size sound creation
  have hgap : Word.maxBytes < Word.limit := by decide
  by_cases hsound : sound
  · by_cases hword : size < Word.limit
    · have hcreation : creation = _ := create_of_word hsound hword
      by_cases hbytes : Word.maxBytes < size
      · rw [hcreation, if_pos hbytes]
        simp [hsound, hbytes, hword, eq_comm]
      · have hfit : size ≤ Word.maxBytes := Nat.le_of_not_lt hbytes
        rw [hcreation, if_neg hbytes]
        simp [hsound, hword, hfit, Nat.not_lt.mpr hfit, size]
    · have hover : Word.limit ≤ size := Nat.le_of_not_lt hword
      have hbytes : Word.maxBytes < size := Nat.lt_of_lt_of_le hgap hover
      have hcreation : creation = _ := create_of_no_word hsound hover
      rw [hcreation]
      simp [hsound, hword, hover, hbytes, eq_comm]
  · have hcreation : creation = _ := create_of_unsound hsound
    rw [hcreation]
    simp [hsound, eq_comm]

/-- A row of 2^62 pixels: the size of a buffer is a word, and no collection may be so large. -/
theorem create_breaks_off_longRow :
    (create 1 1 4611686018427387904 .rgb565).outcome = .error (.fault .capacity) := rfl

end FrameBuffer

end EmulatorOutput.Picture
