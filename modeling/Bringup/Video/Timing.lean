import Bringup.Fault

namespace Bringup.Video

/-- One direction of a raster: pixels across or lines down. -/
structure Axis where
  active : UInt16
  syncWidth : UInt16
  backPorch : UInt16
  frontPorch : UInt16
  syncInvert : Bool
  deriving DecidableEq, Repr

namespace Axis

/-- Everything outside the active part. -/
def blank (a : Axis) : Nat := a.frontPorch.toNat + a.syncWidth.toNat + a.backPorch.toNat

def total (a : Axis) : Nat := a.active.toNat + a.blank

/-- The link counts from the end of the active part, so sync begins after the front porch. -/
def syncStart (a : Axis) : Nat := a.frontPorch.toNat

def syncEnd (a : Axis) : Nat := a.frontPorch.toNat + a.syncWidth.toNat

/-- The display top counts from the start of sync. -/
def activeStart (a : Axis) : Nat := a.syncWidth.toNat + a.backPorch.toNat

def activeEnd (a : Axis) : Nat := a.active.toNat + a.activeStart

/-- Last line before the next front porch. A raster with no such line has no sync start. -/
def lastActive (a : Axis) : Checked Nat :=
  Checked.sub (a.syncWidth.toNat + a.backPorch.toNat + a.active.toNat) 1

end Axis

structure Timing where
  pixelClockHz : UInt32
  horizontal : Axis
  vertical : Axis
  deriving DecidableEq, Repr

namespace Timing

def vsyncPixelStart (t : Timing) : Nat := t.horizontal.activeStart + 1

def vsyncPixelEnd (t : Timing) : Nat := t.horizontal.activeStart + 2

/-- Only 720x480 at 27 MHz or 27.027 MHz is sent as 4:3. -/
def isFourThree (t : Timing) : Bool :=
  t.horizontal.active == 720 && t.vertical.active == 480 &&
    (t.pixelClockHz == 27000000 || t.pixelClockHz == 27027000)

end Timing

structure Resolution where
  width : UInt16
  height : UInt16
  deriving DecidableEq, Repr

def Timing.resolution (t : Timing) : Resolution := ⟨t.horizontal.active, t.vertical.active⟩

end Bringup.Video
