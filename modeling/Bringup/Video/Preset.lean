import Bringup.Video.Feed

namespace Bringup.Video

/-- The output modes the board supports, all at 60 Hz. -/
inductive Preset where
  | hd720
  | fhd1080
  | wide720
  deriving DecidableEq, Repr

namespace Preset

def index : Preset → UInt8
  | .hd720 => 0
  | .fhd1080 => 1
  | .wide720 => 2

def ofIndex? (i : UInt8) : Option Preset :=
  if i = 0 then some .hd720
  else if i = 1 then some .fhd1080
  else if i = 2 then some .wide720
  else none

def timing : Preset → Timing
  | .hd720 => ⟨74250000, ⟨1280, 40, 220, 110, false⟩, ⟨720, 5, 20, 5, false⟩⟩
  | .fhd1080 => ⟨148500000, ⟨1920, 44, 148, 88, false⟩, ⟨1080, 5, 36, 4, false⟩⟩
  | .wide720 => ⟨83500000, ⟨1920, 40, 44, 44, false⟩, ⟨720, 2, 4, 4, false⟩⟩

/-- Coefficients of the transmitter's analogue part, from its first register upwards.
The fastest clock leaves the last register alone. -/
def coefficients : Preset → List UInt8
  | .hd720 => [
      0xd1, 0x1f, 0x10, 0x40, 0x40, 0xf8, 0xc8, 0x81, 0xe8, 0xba, 0xd8, 0x45, 0xa0, 0xac, 0x80, 0x08,
      0x80, 0x09, 0x84, 0x05, 0x22, 0x24, 0x86, 0x54, 0xa5, 0x24, 0x01, 0x00, 0x00, 0x01, 0x80, 0x10]
  | .fhd1080 => [
      0xd1, 0x1f, 0x00, 0x40, 0x40, 0xf8, 0xc8, 0x81, 0xe8, 0xba, 0xd8, 0x45, 0xa0, 0xac, 0x80, 0x08,
      0x80, 0x09, 0x84, 0x05, 0x22, 0x24, 0x86, 0x54, 0x4b, 0x25, 0x03, 0x00, 0x00, 0x01, 0x80]
  | .wide720 => [
      0xd1, 0x23, 0x11, 0x40, 0x0c, 0xfb, 0xc8, 0x85, 0xe8, 0xd1, 0xd8, 0x45, 0xa0, 0xac, 0x80, 0x08,
      0x80, 0x09, 0x84, 0x05, 0x22, 0x24, 0x86, 0x54, 0x93, 0x24, 0x01, 0x00, 0x00, 0x01, 0x80, 0x10]

/-- CEA-861 identification code, zero for a mode that has none. -/
def videoCode : Preset → UInt8
  | .hd720 => 4
  | .fhd1080 => 16
  | .wide720 => 0

def resolution (p : Preset) : Resolution := p.timing.resolution

def feed (p : Preset) : Checked Feed := p.timing.feed

end Preset

end Bringup.Video
