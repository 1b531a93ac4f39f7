import Bringup.Chip.Bus
import Bringup.Chip.Register

namespace Bringup.Chip

/-- One named bit of a status register. -/
structure StatusBit where
  name : String
  mask : UInt8
  deriving DecidableEq, Repr

namespace StatusBit

def adapterPresent : StatusBit := ⟨"ACEN", 0x80⟩
def adapterUsable : StatusBit := ⟨"ACVA", 0x40⟩
def vbusPresent : StatusBit := ⟨"USBEN", 0x20⟩
def vbusUsable : StatusBit := ⟨"USBVA", 0x10⟩
def vbusAboveHold : StatusBit := ⟨"USBLAVHO", 0x08⟩
def charging : StatusBit := ⟨"BATCURDIR", 0x04⟩
def inputsShorted : StatusBit := ⟨"ACUSBSH", 0x02⟩
def bootSource : StatusBit := ⟨"SOURCE", 0x01⟩

def overheated : StatusBit := ⟨"ICTEMOV", 0x80⟩
def chargeActive : StatusBit := ⟨"INCHAR", 0x40⟩
def batteryPresent : StatusBit := ⟨"BATEN", 0x20⟩
def batteryWaking : StatusBit := ⟨"BATINACT", 0x08⟩

def isSet (b : StatusBit) (byte : UInt8) : Bool := byte &&& b.mask != 0

end StatusBit

/-- A status register as it is reported: its address, how the report names it, and its bits
from the highest down. -/
structure StatusRegister where
  address : UInt8
  name : String
  bits : List StatusBit
  deriving DecidableEq, Repr

namespace StatusRegister

def input : StatusRegister :=
  ⟨Register.inputStatus, "STATUS",
    [.adapterPresent, .adapterUsable, .vbusPresent, .vbusUsable, .vbusAboveHold, .charging,
      .inputsShorted, .bootSource]⟩

def charge : StatusRegister :=
  ⟨Register.chargeStatus, "MODE_CHGSTATUS",
    [.overheated, .chargeActive, .batteryPresent, .batteryWaking]⟩

/-- The lines that name the bits set in `byte`. -/
def bitLines (r : StatusRegister) (byte : UInt8) : List String :=
  match r.bits.filter (·.isSet byte) with
  | [] => [s!"{r.name} bits: (none set, 0x{Hex.byte byte})"]
  | set => s!"{r.name} bits:" :: set.map fun b => s!"  - {b.name}"

def lines (r : StatusRegister) (byte : UInt8) : List String :=
  s!"AXP228 Charger: {r.name} 0x{Hex.byte r.address}:0x{Hex.byte byte}" :: r.bitLines byte

def report (r : StatusRegister) (byte : UInt8) : Program Unit :=
  (r.lines byte).forM (Program.log .info)

end StatusRegister

namespace Device

/-- Both status registers are read before either is reported. -/
def reportStatus (d : Device) : Access Unit := do
  let input ← d.readByte StatusRegister.input.address
  let charge ← d.readByte StatusRegister.charge.address
  StatusRegister.input.report input
  StatusRegister.charge.report charge

end Device

end Bringup.Chip
