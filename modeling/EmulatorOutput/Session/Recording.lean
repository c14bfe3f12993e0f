import EmulatorOutput.Session.Turn

/-!
# Recording sinks

Sinks that keep what they are given, to see what a core delivers. A recording of pictures
refuses as its list of refusals says.
-/

namespace EmulatorOutput.Session

open Picture (Image)

/-- The bursts of samples given to a sink, the latest first. -/
structure SoundRecording where
  bursts : List (List Int16) := []

namespace SoundRecording

/-- The bursts in the order they came. -/
def history (r : SoundRecording) : List (List Int16) := r.bursts.reverse

instance : SoundSink SoundRecording where
  push r samples := pure ({ bursts := samples :: r.bursts }, 0)
  tally _ := {}
  close r := (r, [])

end SoundRecording

/-- The pictures given to a sink and accepted, the latest first. -/
structure PictureRecording where
  images : List Image := []
  /-- Whether each coming picture is refused, and why. Later ones are accepted. -/
  refusals : List (Option Failure) := []

namespace PictureRecording

/-- The pictures in the order they came. -/
def history (r : PictureRecording) : List Image := r.images.reverse

def present (r : PictureRecording) (i : Image) : PictureRecording × Except Failure Unit :=
  match r.refusals with
  | some e :: refusals => ({ r with refusals }, .error e)
  | refusals => ({ images := i :: r.images, refusals := refusals.tail }, .ok ())

instance : PictureSink PictureRecording where
  present r i := pure (r.present i)

end PictureRecording

end EmulatorOutput.Session
