import Bringup.Link.Register
import Bringup.Window

namespace Bringup.Link

/-- A value of sixteen bits over two registers: low byte, then high byte. -/
def bytePair (offset : Nat) (value : UInt32) : List WordWrite :=
  [⟨offset, value &&& 0xFF⟩, ⟨offset + 4, (value >>> 8) &&& 0xFF⟩]

/-- A horizontal position. Its low byte is set two pixels early. -/
def earlyPair (offset : Nat) (position : UInt32) : List WordWrite :=
  [⟨offset, (position &&& 0xFF) - 2⟩, ⟨offset + 4, position >>> 8⟩]

namespace Raster

def blueScreen : List Nat := [
  Register.blueScreenR0, Register.blueScreenR1, Register.blueScreenG0, Register.blueScreenG1,
  Register.blueScreenB0, Register.blueScreenB1]

/-- No blue screen, normal encoding, hot-plug interrupts on, and HDMI signalling. -/
def modeWrites : List WordWrite :=
  [⟨Register.control0, 0x10⟩] ++ blueScreen.map (⟨·, 0x5555⟩) ++ [
    ⟨Register.control1, 0⟩,
    ⟨Register.control2, 0⟩,
    ⟨Register.interruptControl, 0x4C⟩,
    ⟨Register.statusEnable, 0x17⟩,
    ⟨Register.hotPlug, 0⟩,
    ⟨Register.modeSelect, 0x02⟩]

def blankWrites (t : Video.Timing) : List WordWrite :=
  bytePair Register.hBlank (.ofNat t.horizontal.blank) ++
  bytePair Register.v1Blank (.ofNat t.vertical.blank) ++
  bytePair Register.v2Blank (.ofNat t.vertical.total) ++
  bytePair Register.vLine (.ofNat t.vertical.total) ++
  bytePair Register.hLine (.ofNat t.horizontal.total)

/-- Polarity follows the width of the mode, not the timing's own wish. -/
def polarity (t : Video.Timing) : UInt32 := if t.horizontal.active = 1280 then 1 else 0

def syncWrites (t : Video.Timing) : List WordWrite :=
  [⟨Register.hSyncPolarity, polarity t⟩, ⟨Register.vSyncPolarity, polarity t⟩,
    ⟨Register.scanMode, 0⟩] ++
  earlyPair Register.hSyncStart (.ofNat t.horizontal.syncStart) ++
  earlyPair Register.hSyncEnd (.ofNat t.horizontal.syncEnd) ++
  bytePair Register.vSyncBefore1 (.ofNat t.vertical.syncStart) ++
  bytePair Register.vSyncBefore2 (.ofNat t.vertical.syncEnd)

/-- Pairs that only interlaced and 3D modes would need, six to a block, all switched off. -/
def unusedWrites : List WordWrite :=
  [Register.vSyncAfter, Register.vSyncAfterPixel, Register.activeSpace].flatMap fun base =>
    (List.range 6).flatMap fun i => bytePair (base + 8 * i) 0xFFFF

/-- Whether the link shows its own test pattern instead of the picture. -/
def testPattern : Bool := false

def sendWrites : List WordWrite := [
  ⟨Register.colorMux, 0⟩,
  ⟨Register.syncMux, 0⟩,
  ⟨Register.sendStart0, 0xFD⟩,
  ⟨Register.sendStart1, 0x01⟩,
  ⟨Register.sendEnd0, 0x0D⟩,
  ⟨Register.sendEnd1, 0x3A⟩,
  ⟨Register.sendEnd2, 0x08⟩,
  ⟨Register.deepColor, 0⟩,
  ⟨Register.patternGenerator, if testPattern then 1 else 0⟩,
  ⟨Register.generalControl, 0x0A⟩]

/-- All link registers that describe a raster, in the order they are written. -/
def writes (t : Video.Timing) : List WordWrite :=
  modeWrites ++ blankWrites t ++ syncWrites t ++ unusedWrites ++ sendWrites

end Raster

end Bringup.Link
