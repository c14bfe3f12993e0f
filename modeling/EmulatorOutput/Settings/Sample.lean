/-!
# Sample settings

A commented document to start from.
-/

namespace EmulatorOutput.Settings

def sampleLines : List String :=
  ["# emuout configuration",
    "",
    "# Log level: trace, debug, info, warn, error (default: info)",
    "log_level = \"info\"",
    "",
    "# Log file path (empty = no file logging)",
    "log_file = \"\"",
    "",
    "[audio]",
    "enabled = true",
    "# Device-native format; samples are never resampled",
    "sample_rate = 48000",
    "channels = 2",
    "# 48000 Hz * 2 ch * 2 bytes / 40 = 4800 bytes per period, in 8192-byte buffers",
    "periods_per_second = 40",
    "alignment = 4096",
    "# Buffers in flight before the core is blocked",
    "queue_depth = 1",
    "# Give up on the device after this long and drop the period (0 = wait forever)",
    "wait_timeout_ms = 250",
    "# Layout the core delivers: \"mono\" or \"stereo\"",
    "source_layout = \"stereo\"",
    "# Hold each period for its play time (false = run as fast as possible)",
    "realtime = true",
    "# Write played PCM to this file (empty = none)",
    "pcm_file = \"\"",
    "tone_hz = 440",
    "",
    "[video]",
    "enabled = true",
    "# Framebuffer size; width 0 derives it from the window, or uses 160",
    "width = 0",
    "height = 144",
    "# Row length in pixels (0 = width)",
    "stride = 0",
    "# Window the host stretches the framebuffer into (0 = none)",
    "window_width = 1280",
    "window_height = 720",
    "# \"rgb565\", \"rgb565-be\" or \"xrgb8888\"",
    "# (unset = \"rgb565-be\" for bilinear, \"rgb565\" otherwise)",
    "# format = \"rgb565\"",
    "# \"positioned\", \"bilinear\" or \"nearest\"",
    "scale = \"positioned\"",
    "factor = 1",
    "# Resample target (0 = framebuffer size)",
    "output_width = 0",
    "output_height = 0",
    "# \"when-narrower\", \"always\" or \"never\"",
    "clear = \"when-narrower\"",
    "",
    "[driver]",
    "# Frame limiter (0 = paced by audio only)",
    "target_fps = 0"]

/-- Sample settings as the text of a document. -/
def sample : String := String.join (sampleLines.map fun l => l ++ "\n")

end EmulatorOutput.Settings
