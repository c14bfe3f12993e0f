import EmulatorOutput.Fault

/-!
# Failures

What can go wrong while sound and pictures are put out, as causes. Unlike a fault, a failure
is an answer: the caller sees it and goes on. `Stop` joins the two where one computation can
end in either.
-/

namespace EmulatorOutput

/-- The cause of a refused request. -/
inductive Failure where
  | allocationFailed (role : String) (size align : Nat)
  | invalidConfig (reason : String)
  | unsupportedChannelConversion (sourceChannels deviceChannels : Nat)
  | sourceSizeMismatch (width height actual : Nat)
  | geometryTooSmall (requiredWidth requiredHeight stride height : Nat)
  | deviceTimeout (waitedMillis : Nat)
  | deviceError (reason : String)
  | channelError (reason : String)
  | io (reason : String)
  deriving DecidableEq, Repr

namespace Failure

/-- The causes without their details. Reports are limited to one for each kind. -/
inductive Kind where
  | allocationFailed
  | invalidConfig
  | unsupportedChannelConversion
  | sourceSizeMismatch
  | geometryTooSmall
  | deviceTimeout
  | deviceError
  | channelError
  | io
  deriving DecidableEq, Repr

/-- The kind of a failure forgets its details. -/
def kind : Failure → Kind
  | .allocationFailed .. => .allocationFailed
  | .invalidConfig .. => .invalidConfig
  | .unsupportedChannelConversion .. => .unsupportedChannelConversion
  | .sourceSizeMismatch .. => .sourceSizeMismatch
  | .geometryTooSmall .. => .geometryTooSmall
  | .deviceTimeout .. => .deviceTimeout
  | .deviceError .. => .deviceError
  | .channelError .. => .channelError
  | .io .. => .io

def message : Failure → String
  | .allocationFailed role size align =>
    s!"Failed to allocate {role} buffer ({size} bytes, aligned to {align})"
  | .invalidConfig reason => s!"Invalid configuration: {reason}"
  | .unsupportedChannelConversion source device =>
    s!"No channel conversion from {source} source channel(s) to {device} device channel(s)"
  | .sourceSizeMismatch width height actual =>
    s!"Source image is {width}x{height} but holds {actual} pixels"
  | .geometryTooSmall width rows stride height =>
    s!"Destination too small: need {width}x{rows} pixels, have stride {stride} and height {height}"
  | .deviceTimeout waited => s!"Audio device did not release a buffer within {waited}ms"
  | .deviceError reason => s!"Device error: {reason}"
  | .channelError reason => s!"Thread communication error: {reason}"
  | .io reason => s!"I/O error: {reason}"

/-- A session may go on after a recoverable failure. -/
def recoverable : Failure → Bool
  | .deviceTimeout _ | .deviceError _ | .channelError _ => true
  | _ => false

end Failure

/-- An end other than success: broken off, or refused. -/
inductive Stop where
  | fault (cause : Fault)
  | failure (cause : Failure)
  deriving DecidableEq, Repr

/-- A checked computation inside one that can also be refused. -/
def Stop.ofExcept {α : Type} : Except Fault α → Except Stop α
  | .ok a => .ok a
  | .error f => .error (.fault f)

instance : MonadLift (Except Fault) (Except Stop) where
  monadLift x := Stop.ofExcept x

end EmulatorOutput
