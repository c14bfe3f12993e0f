import EmulatorOutput.Bytes

/-!
# Pixels

A source pixel packs three channels into a 16-bit word: blue in bits 0 to 4, green in bits 5
to 10, red in bits 11 to 15. A target buffer holds such words in either byte order, or wider
words with eight bits for each channel.
-/

namespace EmulatorOutput.Picture

/-- The channels of a pixel. -/
structure Channels where
  r : UInt8
  g : UInt8
  b : UInt8
  deriving DecidableEq, Repr

namespace Channels

def unpack (p : UInt16) : Channels :=
  let blue : UInt16 := p &&& 0x1F
  let green : UInt16 := (p >>> 5) &&& 0x3F
  let red : UInt16 := (p >>> 11) &&& 0x1F
  { r := red.toUInt8, g := green.toUInt8, b := blue.toUInt8 }

/-- The packed pixel. Bits beyond the width of a channel are left out. -/
def pack (c : Channels) : UInt16 :=
  let blue : UInt16 := c.b.toUInt16 &&& 0x1F
  let green : UInt16 := c.g.toUInt16 &&& 0x3F
  let red : UInt16 := c.r.toUInt16 &&& 0x1F
  blue ||| (green <<< 5) ||| (red <<< 11)

end Channels

/-- A packed pixel with each channel widened to eight bits, its high bits repeated below. -/
def widen (p : UInt16) : UInt32 :=
  let c := Channels.unpack p
  let r := (c.r <<< 3) ||| (c.r >>> 2)
  let g := (c.g <<< 2) ||| (c.g >>> 4)
  let b := (c.b <<< 3) ||| (c.b >>> 2)
  (r.toUInt32 <<< 16) ||| (g.toUInt32 <<< 8) ||| b.toUInt32

/-- How a target buffer holds a pixel. -/
inductive PixelFormat where
  /-- The packed word, low byte first. -/
  | rgb565
  /-- The packed word, high byte first. -/
  | rgb565Be
  /-- The widened word, low byte first. -/
  | xrgb8888
  deriving DecidableEq, Repr

namespace PixelFormat

def bytesPerPixel : PixelFormat → Nat
  | .rgb565 | .rgb565Be => 2
  | .xrgb8888 => 4

def label : PixelFormat → String
  | .rgb565 => "rgb565"
  | .rgb565Be => "rgb565-be"
  | .xrgb8888 => "xrgb8888"

def ofLabel? (s : String) : Option PixelFormat :=
  [rgb565, rgb565Be, xrgb8888].find? fun f => f.label == s

/-- The bytes of a pixel in a target buffer. -/
def encode : PixelFormat → UInt16 → List UInt8
  | .rgb565, p => Bytes.little16 p
  | .rgb565Be, p => Bytes.big16 p
  | .xrgb8888, p => Bytes.little32 (widen p)

/-- The bytes of a pixel for a place of the given size, which has to be exactly that of a
pixel. -/
def encodeFor (f : PixelFormat) (room : Nat) (p : UInt16) : Except Fault (List UInt8) :=
  if room = f.bytesPerPixel then .ok (f.encode p) else .error .outOfRange

/-- The word that a pixel's bytes stand for. -/
def decode : PixelFormat → List UInt8 → Nat
  | .rgb565Be, bs => bs.foldl (fun n b => 256 * n + b.toNat) 0
  | _, bs => bs.foldr (fun b n => b.toNat + 256 * n) 0

@[simp] theorem length_encode (f : PixelFormat) (p : UInt16) :
    (f.encode p).length = f.bytesPerPixel := by
  cases f <;> rfl

theorem bytesPerPixel_pos (f : PixelFormat) : 0 < f.bytesPerPixel := by
  cases f <;> decide

end PixelFormat

end EmulatorOutput.Picture
