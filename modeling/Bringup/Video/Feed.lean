import Bringup.Video.Timing

namespace Bringup.Video

inductive PixelFormat where
  | rgb888
  deriving DecidableEq, Repr

structure Clock where
  source : UInt8
  divider : UInt8
  deriving DecidableEq, Repr

/-- How the display controller has to drive the link. -/
structure Feed where
  pixelClock : Clock
  outputClock : Clock
  format : PixelFormat
  delayMask : UInt8
  rgbDelay : UInt8
  hsyncDelay : UInt8
  vsyncDelay : UInt8
  enableDelay : UInt8
  frameStart : Nat
  frameEnd : Nat
  fieldStart : Nat
  fieldEnd : Nat
  deriving DecidableEq, Repr

/-- Delay adjustment of pixel data, horizontal sync, vertical sync and data enable. -/
def Feed.allDelays : UInt8 := 0x0F

/-- Frame and field both start on the last pixel of the line, so a line needs a pixel. -/
def Timing.feed (t : Timing) : Checked Feed := do
  let lastPixel ← Checked.sub t.horizontal.total 1
  return {
    pixelClock := ⟨4, 1⟩
    outputClock := ⟨7, 1⟩
    format := .rgb888
    delayMask := Feed.allDelays
    rgbDelay := 0
    hsyncDelay := 0
    vsyncDelay := 0
    enableDelay := 7
    frameStart := lastPixel
    frameEnd := 0
    fieldStart := lastPixel
    fieldEnd := 0 }

end Bringup.Video
