import EmulatorOutput.Settings.Types
import EmulatorOutput.Toml.Document
import EmulatorOutput.Toml.Outline

/-!
# Settings as documents

Settings are read from a TOML document and written as one. In reading, what is missing keeps its
default and what is unknown is passed over, but a value of the wrong kind or out of range is
refused. A group of settings may also be given as an array, in the order of its names.
-/

namespace EmulatorOutput.Settings

open Picture (ClearPolicy PixelFormat)
open Sound (Layout)
open Toml (Outline Scalar Value)

/-! ## Names of choices -/

abbrev Names (α : Type) := List (String × α)

def nameIn {α : Type} [DecidableEq α] (names : Names α) (a : α) : String :=
  ((names.find? fun n => n.2 = a).map Prod.fst).getD ""

def layoutNames : Names Layout := [("mono", .mono), ("stereo", .stereo)]

def scalingNames : Names Scaling :=
  [("positioned", .positioned), ("bilinear", .bilinear), ("nearest", .nearest)]

def formatNames : Names PixelFormat :=
  [PixelFormat.rgb565, .rgb565Be, .xrgb8888].map fun f => (f.label, f)

def clearNames : Names ClearPolicy :=
  [("when-narrower", .whenNarrower), ("always", .always), ("never", .never)]

/-! ## Reading -/

/-- A number with so many bits. -/
def readWord (bits : Nat) : Value → Option Nat
  | .integer n => if 0 ≤ n ∧ n.toNat < 1 <<< bits then some n.toNat else none
  | _ => none

def readText : Value → Option String
  | .text s => some s
  | _ => none

def readFlag : Value → Option Bool
  | .boolean b => some b
  | _ => none

/-- A choice: its name, or a table with its name as the only key and nothing under it. -/
def readChoice {α : Type} (names : Names α) : Value → Option α
  | .text s => names.lookup s
  | .table _ [(s, .table _ [])] | .table _ [(s, .array [])] => names.lookup s
  | _ => none

/-- What a group of settings assigns to its names: by name in a table, by place in an array. A
moment assigns nothing. -/
def assignments (names : List String) : Value → Option (String → Option Value)
  | .table _ entries => some fun name => entries.lookup name
  | .array items => some fun name => (names.zip items).lookup name
  | .tables rows => some fun name => (names.zip (rows.map (Value.table .opened))).lookup name
  | .moment _ => some fun _ => none
  | _ => none

/-- The value assigned to a name, or what it is otherwise. -/
def assigned {α : Type} (given : String → Option Value) (name : String)
    (read : Value → Option α) (otherwise : α) : Option α :=
  match given name with
  | some v => read v
  | none => some otherwise

namespace Audio

/-- The names of sound settings in their order. -/
def names : List String :=
  ["enabled", "sample_rate", "channels", "periods_per_second", "alignment", "queue_depth",
    "wait_timeout_ms", "source_layout", "realtime", "pcm_file", "tone_hz"]

def read (v : Value) : Option Audio := do
  let given ← assignments names v
  let d : Audio := {}
  let word32 (name : String) (x : UInt32) : Option UInt32 := do
    return UInt32.ofNat (← assigned given name (readWord 32) x.toNat)
  let word64 (name : String) (x : UInt64) : Option UInt64 := do
    return UInt64.ofNat (← assigned given name (readWord 64) x.toNat)
  let enabled ← assigned given "enabled" readFlag d.enabled
  let sampleRate ← word32 "sample_rate" d.sampleRate
  let channels ← assigned given "channels" (readWord 16) d.channels.toNat
  let periodsPerSecond ← word32 "periods_per_second" d.periodsPerSecond
  let alignment ← word64 "alignment" d.alignment
  let queueDepth ← word64 "queue_depth" d.queueDepth
  let waitMillis ← word64 "wait_timeout_ms" d.waitMillis
  let sourceLayout ← assigned given "source_layout" (readChoice layoutNames) d.sourceLayout
  let realtime ← assigned given "realtime" readFlag d.realtime
  let pcmFile ← assigned given "pcm_file" readText d.pcmFile
  let tone ← word32 "tone_hz" d.tone
  return {
    enabled, sampleRate, channels := UInt16.ofNat channels, periodsPerSecond, alignment, queueDepth,
    waitMillis, sourceLayout, realtime, pcmFile, tone }

def fields (a : Audio) : Toml.Fields :=
  [("enabled", .flag a.enabled), ("sample_rate", .number a.sampleRate.toNat),
    ("channels", .number a.channels.toNat),
    ("periods_per_second", .number a.periodsPerSecond.toNat),
    ("alignment", .number a.alignment.toNat), ("queue_depth", .number a.queueDepth.toNat),
    ("wait_timeout_ms", .number a.waitMillis.toNat),
    ("source_layout", .text (nameIn layoutNames a.sourceLayout)),
    ("realtime", .flag a.realtime), ("pcm_file", .text a.pcmFile),
    ("tone_hz", .number a.tone.toNat)]

end Audio

namespace Video

/-- The names of picture settings in their order. -/
def names : List String :=
  ["enabled", "width", "height", "stride", "window_width", "window_height", "format", "scale",
    "factor", "output_width", "output_height", "clear"]

def read (v : Value) : Option Video := do
  let given ← assignments names v
  let d : Video := {}
  let word (name : String) (x : UInt64) : Option UInt64 := do
    return UInt64.ofNat (← assigned given name (readWord 64) x.toNat)
  let enabled ← assigned given "enabled" readFlag d.enabled
  let width ← word "width" d.width
  let height ← word "height" d.height
  let stride ← word "stride" d.stride
  let windowWidth ← word "window_width" d.windowWidth
  let windowHeight ← word "window_height" d.windowHeight
  let format ← assigned given "format" (fun v => some <$> readChoice formatNames v) d.format
  let scale ← assigned given "scale" (readChoice scalingNames) d.scale
  let factor ← word "factor" d.factor
  let outputWidth ← word "output_width" d.outputWidth
  let outputHeight ← word "output_height" d.outputHeight
  let clear ← assigned given "clear" (readChoice clearNames) d.clear
  return {
    enabled, width, height, stride, windowWidth, windowHeight, format, scale, factor, outputWidth,
    outputHeight, clear }

/-- Picture settings as fields. The format is left out unless it is chosen. -/
def fields (v : Video) : Toml.Fields :=
  [("enabled", .flag v.enabled), ("width", .number v.width.toNat),
    ("height", .number v.height.toNat), ("stride", .number v.stride.toNat),
    ("window_width", .number v.windowWidth.toNat),
    ("window_height", .number v.windowHeight.toNat)] ++
  (v.format.map fun f => ("format", Scalar.text (nameIn formatNames f))).toList ++
  [("scale", .text (nameIn scalingNames v.scale)), ("factor", .number v.factor.toNat),
    ("output_width", .number v.outputWidth.toNat),
    ("output_height", .number v.outputHeight.toNat),
    ("clear", .text (nameIn clearNames v.clear))]

end Video

namespace Pace

def read (v : Value) : Option Pace := do
  let given ← assignments ["target_fps"] v
  let d : Pace := {}
  let rate ← assigned given "target_fps" (readWord 32) d.targetRate.toNat
  return { targetRate := UInt32.ofNat rate }

/-- Settings of the control loop as fields. -/
def fields (p : Pace) : Toml.Fields := [("target_fps", .number p.targetRate.toNat)]

end Pace

/-- Reads all settings from the entries of a document. -/
def ofEntries (entries : Toml.Entries) : Option Settings := do
  let given (name : String) : Option Value := entries.lookup name
  let d : Settings := {}
  let logLevel ← assigned given "log_level" readText d.logLevel
  let logFile ← assigned given "log_file" readText d.logFile
  let audio ← assigned given "audio" Audio.read d.audio
  let video ← assigned given "video" Video.read d.video
  let pace ← assigned given "driver" Pace.read d.pace
  return { logLevel, logFile, audio, video, pace }

/-- Reads settings from the text of a document. -/
def parse (text : String) : Option Settings := do ofEntries (← Toml.parse text)

/-! ## Writing -/

def outline (s : Settings) : Outline where
  fields := [("log_level", .text s.logLevel), ("log_file", .text s.logFile)]
  sections := [("audio", s.audio.fields), ("video", s.video.fields), ("driver", s.pace.fields)]

/-- Whether settings can be written. Their numbers may be too large. -/
def isWritable (s : Settings) : Bool := s.outline.isWritable

/-- Settings as the text of a document. -/
def render (s : Settings) : Except Fault String := s.outline.render

end EmulatorOutput.Settings
