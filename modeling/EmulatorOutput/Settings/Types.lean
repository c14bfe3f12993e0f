import EmulatorOutput.Picture.Pixel
import EmulatorOutput.Picture.ScaleMode
import EmulatorOutput.Sound.Setup

/-!
# Settings

What a user can choose, in the terms in which it is written down. Zero often means that
something is derived or left out; the derivations are elsewhere.
-/

namespace EmulatorOutput.Settings

open Picture (ClearPolicy PixelFormat)
open Sound (Layout)

/-- The choice of a scaling method. -/
inductive Scaling where
  | positioned
  | bilinear
  | nearest
  deriving DecidableEq, Repr

/-- Settings of the sound. -/
structure Audio where
  enabled : Bool := true
  sampleRate : UInt32 := Sound.deviceSampleRate
  channels : UInt16 := Sound.deviceChannels
  periodsPerSecond : UInt32 := Sound.periodsPerSecond
  alignment : UInt64 := Sound.bufferAlignment
  queueDepth : UInt64 := 1
  /-- The bound on a wait in milliseconds, zero for none. -/
  waitMillis : UInt64 := 250
  sourceLayout : Layout := .stereo
  /-- Whether periods are held for their play time. -/
  realtime : Bool := true
  /-- The file that played samples go to, empty for none. -/
  pcmFile : String := ""
  tone : UInt32 := 440
  deriving DecidableEq, Repr

/-- Settings of the picture. -/
structure Video where
  enabled : Bool := true
  /-- The width of the frame buffer, zero to derive it. -/
  width : UInt64 := 0
  height : UInt64 := 144
  /-- The pixels of a row in memory, zero for the width. -/
  stride : UInt64 := 0
  /-- The window that the frame is stretched over, zero for none. -/
  windowWidth : UInt64 := 0
  windowHeight : UInt64 := 0
  /-- The pixel format, if it is chosen. -/
  format : Option PixelFormat := none
  scale : Scaling := .positioned
  /-- The side of a pixel's block when pixels are repeated. -/
  factor : UInt64 := 1
  /-- The size that a picture is resampled to, zero for that of the frame buffer. -/
  outputWidth : UInt64 := 0
  outputHeight : UInt64 := 0
  clear : ClearPolicy := .whenNarrower
  deriving DecidableEq, Repr

/-- Settings of the control loop. -/
structure Pace where
  /-- The frames of a second at most, zero for no limit. -/
  targetRate : UInt32 := 0
  deriving DecidableEq, Repr

end Settings

/-- All settings. -/
structure Settings where
  logLevel : String := "info"
  /-- The file that notices go to, empty for none. -/
  logFile : String := ""
  audio : Settings.Audio := {}
  video : Settings.Video := {}
  pace : Settings.Pace := {}
  deriving DecidableEq, Repr

end EmulatorOutput
