import Bringup.Video.Timing

namespace Bringup.Link

/-- How the two pictures of a 3D image are packed. -/
inductive Structure3D where
  | framePacking
  | topAndBottom
  | sideBySideHalf
  deriving DecidableEq, Repr

def Structure3D.code : Structure3D → UInt8
  | .framePacking => 0x0
  | .topAndBottom => 0x6
  | .sideBySideHalf => 0x8

inductive VideoFormat where
  | flat
  | stereo (packing : Structure3D)
  deriving DecidableEq, Repr

/-- The byte that makes header, payload and itself sum to zero. -/
def checksum (header payload : List UInt8) : UInt8 := 0 - (header ++ payload).foldl (· + ·) 0

/-- A CEA-861 infoframe. The header's length says how much of the body is sent. -/
structure Infoframe where
  kind : UInt8
  version : UInt8
  length : UInt8
  body : Vector UInt8 27
  deriving DecidableEq, Repr

namespace Infoframe

def header (f : Infoframe) : List UInt8 := [f.kind, f.version, f.length]

/-- A body never holds more than this. -/
def capacity : Nat := 27

/-- A header that claims more than the body holds is a fault. -/
def payload (f : Infoframe) : Checked (List UInt8) :=
  if f.length.toNat ≤ capacity then .ok (f.body.toList.take f.length.toNat)
  else .error (.rangeEnd f.length.toNat capacity)

def check (f : Infoframe) : Checked UInt8 := return checksum f.header (← f.payload)

def blank (kind version length : UInt8) : Infoframe := ⟨kind, version, length, .replicate 27 0⟩

def videoKind : UInt8 := 0x82

def audioKind : UInt8 := 0x84

def vendorKind : UInt8 := 0x81

/-- Identification of 720x480, sent whatever else was asked for. -/
def fourThreeCode : UInt8 := 17

/-- Video information: RGB of limited range, underscanned, 16:9 unless the timing is that of
720x480. -/
def video (code : UInt8) (t : Video.Timing) : Infoframe :=
  let (aspect, code) : UInt8 × UInt8 := if t.isFourThree then (0x01, fourThreeCode) else (0x02, code)
  let frame := blank videoKind 0x02 13
  let body := frame.body
    |>.set 0 (0x10 ||| 0x02)
    |>.set 1 (aspect ||| 0x08 ||| 0x80)
    |>.set 2 0x04
    |>.set 3 code
  { frame with body }

/-- Audio information that refers to the stream for everything. -/
def audio : Infoframe := blank audioKind 0x01 10

/-- Vendor information, which only 3D needs. A side-by-side image also says how it is halved. -/
def vendor : VideoFormat → Option Infoframe
  | .flat => none
  | .stereo packing =>
      let frame := blank vendorKind 0x01 5
      let body := frame.body
        |>.set 0 0x03
        |>.set 1 0x0C
        |>.set 2 0x00
        |>.set 3 0x40
        |>.set 4 (packing.code <<< 4)
      if packing = .sideBySideHalf then
        some { frame with length := 6, body := body.set 5 0x10 }
      else
        some { frame with body }

end Infoframe

end Bringup.Link
