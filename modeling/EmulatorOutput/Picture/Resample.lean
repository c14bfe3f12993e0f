import EmulatorOutput.Picture.Pixel

/-!
# Resampling

Which source pixels a target coordinate draws on. Positions are fixed-point numbers with
sixteen bits below the point, and a mixture weighs four neighbours with eight bits in each
direction.
-/

namespace EmulatorOutput.Picture

/-- A source position: the pixel at or before it, the next one, and how far it lies between
the two in steps of 1/256. -/
structure Sample where
  index : Nat
  next : Nat
  weight : Nat
  deriving DecidableEq, Repr

/-- The source position of target coordinate `dst`: the fraction `dst / dstSize` of the way from
the first source pixel to the last. -/
def bilinearSample (dst srcSize dstSize : Nat) : Except Fault Sample := do
  let last ← Word.sub srcSize 1
  let scaled ← Word.mul last dst
  let fixed ← Word.mul scaled 65536
  let pos ← Word.div fixed dstSize
  let index := pos / 65536
  return { index, next := min (index + 1) last, weight := pos / 256 % 256 }

/-- The mean of one channel of four neighbours, with weights that add up to 65536. -/
def mixChannel (dx dy : Nat) (a b c d : UInt8) : UInt8 :=
  UInt8.ofNat ((a.toNat * ((256 - dx) * (256 - dy)) + b.toNat * (dx * (256 - dy)) +
    c.toNat * ((256 - dx) * dy) + d.toNat * (dx * dy)) / 65536)

/-- The mean of four packed pixels: `a` and `b` in the upper row, `c` and `d` in the lower. -/
def blend (a b c d : UInt16) (dx dy : Nat) : UInt16 :=
  let a := Channels.unpack a
  let b := Channels.unpack b
  let c := Channels.unpack c
  let d := Channels.unpack d
  Channels.pack
    { r := mixChannel dx dy a.r b.r c.r d.r
      g := mixChannel dx dy a.g b.g c.g d.g
      b := mixChannel dx dy a.b b.b c.b d.b }

/-- The source pixel nearest to target coordinate `dst`: `dst * srcSize / dstSize` rounded, a
half going up, and not past the last pixel. -/
def nearestIndex (dst srcSize dstSize : Nat) : Except Fault Nat := do
  let scaled ← Word.mul dst srcSize
  let twice ← Word.mul scaled 2
  let top ← Word.add twice dstSize
  let bottom ← Word.mul dstSize 2
  let rounded ← Word.div top bottom
  let last ← Word.sub srcSize 1
  return min rounded last

end EmulatorOutput.Picture
