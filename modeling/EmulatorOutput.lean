import EmulatorOutput.Bytes
import EmulatorOutput.CommandLine.Arguments
import EmulatorOutput.CommandLine.Grammar
import EmulatorOutput.CommandLine.Program
import EmulatorOutput.CommandLine.Surroundings
import EmulatorOutput.Failure
import EmulatorOutput.Fault
import EmulatorOutput.Files.Access
import EmulatorOutput.Files.Path
import EmulatorOutput.Files.Tree
import EmulatorOutput.Main
import EmulatorOutput.Memory
import EmulatorOutput.Notice
import EmulatorOutput.Picture.Compositor
import EmulatorOutput.Picture.FrameBuffer
import EmulatorOutput.Picture.Pipeline
import EmulatorOutput.Picture.Pixel
import EmulatorOutput.Picture.Placement
import EmulatorOutput.Picture.Resample
import EmulatorOutput.Picture.ScaleMode
import EmulatorOutput.Picture.Screen
import EmulatorOutput.Picture.Surface
import EmulatorOutput.Proofs.AcceptedSetup
import EmulatorOutput.Proofs.AlikeEndings
import EmulatorOutput.Proofs.Backpressure
import EmulatorOutput.Proofs.BilinearError
import EmulatorOutput.Proofs.BilinearRange
import EmulatorOutput.Proofs.BlockCopies
import EmulatorOutput.Proofs.BufferCreation
import EmulatorOutput.Proofs.BufferSwaps
import EmulatorOutput.Proofs.BurstPasses
import EmulatorOutput.Proofs.BurstSplitting
import EmulatorOutput.Proofs.CarriedSound
import EmulatorOutput.Proofs.ChannelMeans
import EmulatorOutput.Proofs.CheckedEndings
import EmulatorOutput.Proofs.CheckedLoops
import EmulatorOutput.Proofs.ComposedFrames
import EmulatorOutput.Proofs.CoreCycles
import EmulatorOutput.Proofs.DerivedSizes
import EmulatorOutput.Proofs.DerivedScreens
import EmulatorOutput.Proofs.DrawingEndings
import EmulatorOutput.Proofs.DrawnPictures
import EmulatorOutput.Proofs.ExactPositions
import EmulatorOutput.Proofs.FormerPixels
import EmulatorOutput.Proofs.FrameCounts
import EmulatorOutput.Proofs.FrameLimit
import EmulatorOutput.Proofs.FrameOutcomes
import EmulatorOutput.Proofs.FramePacing
import EmulatorOutput.Proofs.HeldBuffers
import EmulatorOutput.Proofs.IndependentSinks
import EmulatorOutput.Proofs.IndistinctCores
import EmulatorOutput.Proofs.MonoStereo
import EmulatorOutput.Proofs.NearestPixels
import EmulatorOutput.Proofs.NoticeLaws
import EmulatorOutput.Proofs.Opening
import EmulatorOutput.Proofs.OpeningEndings
import EmulatorOutput.Proofs.PaintedRows
import EmulatorOutput.Proofs.PatternCycles
import EmulatorOutput.Proofs.PatternLimits
import EmulatorOutput.Proofs.PatternReplay
import EmulatorOutput.Proofs.PatternSound
import EmulatorOutput.Proofs.PeriodClosing
import EmulatorOutput.Proofs.PeriodCounts
import EmulatorOutput.Proofs.PlaybackAccounts
import EmulatorOutput.Proofs.PlaybackDraining
import EmulatorOutput.Proofs.PlaybackSessions
import EmulatorOutput.Proofs.PlaybackTurns
import EmulatorOutput.Proofs.PlaybackUnderruns
import EmulatorOutput.Proofs.QueuedCommands
import EmulatorOutput.Proofs.ReportedFailures
import EmulatorOutput.Proofs.RoundingUp
import EmulatorOutput.Proofs.Routing
import EmulatorOutput.Proofs.RowWrites
import EmulatorOutput.Proofs.SamplePositions
import EmulatorOutput.Proofs.SessionControl
import EmulatorOutput.Proofs.SessionCourses
import EmulatorOutput.Proofs.SessionEvents
import EmulatorOutput.Proofs.SessionInvariants
import EmulatorOutput.Proofs.SessionTotals
import EmulatorOutput.Proofs.Sessions
import EmulatorOutput.Proofs.SplitTransfer
import EmulatorOutput.Proofs.StartupCheck
import EmulatorOutput.Proofs.SubmittedPeriods
import EmulatorOutput.Proofs.Teardown
import EmulatorOutput.Proofs.VerbatimFrames
import EmulatorOutput.Proofs.WorkBuffer
import EmulatorOutput.Session.Command
import EmulatorOutput.Session.Core
import EmulatorOutput.Session.Loop
import EmulatorOutput.Session.Mailbox
import EmulatorOutput.Session.Pacing
import EmulatorOutput.Session.Player
import EmulatorOutput.Session.Recording
import EmulatorOutput.Session.TestPattern
import EmulatorOutput.Session.Turn
import EmulatorOutput.Settings.Derived
import EmulatorOutput.Settings.Document
import EmulatorOutput.Settings.Sample
import EmulatorOutput.Settings.Store
import EmulatorOutput.Settings.Types
import EmulatorOutput.Sound.Alignment
import EmulatorOutput.Sound.Device
import EmulatorOutput.Sound.Format
import EmulatorOutput.Sound.Playback
import EmulatorOutput.Sound.PlaybackDevice
import EmulatorOutput.Sound.ScriptedDevice
import EmulatorOutput.Sound.Setup
import EmulatorOutput.Sound.Staging
import EmulatorOutput.Sound.Stream
import EmulatorOutput.Text.Decoding
import EmulatorOutput.Text.Duration
import EmulatorOutput.Toml.Document
import EmulatorOutput.Toml.Moment
import EmulatorOutput.Toml.Number
import EmulatorOutput.Toml.Outline
import EmulatorOutput.Toml.Quoting
import EmulatorOutput.Toml.Scan
import EmulatorOutput.Toml.Table
import EmulatorOutput.Toml.Text
import EmulatorOutput.Toml.Value
