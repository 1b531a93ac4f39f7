import Bringup.Chip.Register
import Bringup.Chip.Tally
import Bringup.Pmic.Settings

namespace Bringup.Pmic

open Chip

/-- Frequency spread, poly-phase and switching frequency fill one register together. -/
def frequencySlots (s : Settings) : Option (List Slot) := do
  let enable ← s.spreadEnable
  let spread ← s.spreadRange
  let phase ← s.polyPhase
  let frequency ← s.switchFrequency
  return [⟨enable, 1, 7⟩, ⟨spread, 1, 6⟩, ⟨phase, 1, 4⟩, ⟨frequency, 0xF, 0⟩]

/-- Overheating and VBUS control fill one register together; its lowest bit is always set. -/
def overheatSlots (s : Settings) : Option (List Slot) := do
  let wake ← s.wakeOnInterrupt
  let function ← s.vbusAcinFunction
  let status ← s.vbusAcinStatus
  let vbus ← s.vbusEnable
  let reset ← s.resetEnable
  let off ← s.overheatOff
  return [⟨wake, 1, 7⟩, ⟨function, 1, 6⟩, ⟨status, 1, 5⟩, ⟨vbus, 1, 4⟩, ⟨reset, 1, 3⟩,
    ⟨off, 1, 2⟩, ⟨1, 1, 0⟩]

def frequencyField : Field := ⟨Register.converterFrequency, 0xFF⟩

def overheatField : Field := ⟨Register.overheat, 0xFF⟩

def offVoltageField : Field := ⟨Register.powerOff, 0x07⟩

/-- Nothing is touched unless every part is configured and fits. -/
def applySlots (d : Device) (f : Field) (what : String) : Option (List Slot) → Access Outcome
  | none => throw (.incomplete what)
  | some slots =>
      match pack slots with
      | none => throw .invalidInput
      | some byte => return .ofWritten (← d.update f byte)

def applyOffVoltage (d : Device) (s : Settings) : Access Outcome :=
  match s.offVoltage with
  | none => return .skipped
  | some v =>
      match pack [⟨v, offVoltageField.mask, 0⟩] with
      | none => throw .invalidInput
      | some bits => return .ofWritten (← d.update offVoltageField bits)

/-- The configured bits are switched on; none is ever switched off. -/
def applyAdcControl (d : Device) (s : Settings) : Access Outcome :=
  match s.adcControl with
  | none => return .skipped
  | some v =>
      match pack [⟨v, 0xFF, 0⟩] with
      | none => throw .invalidInput
      | some bits => return .ofWritten (← d.set ⟨Register.adcControl, bits⟩)

/-- Interrupts to enable, and then every pending one cleared. -/
def interruptSetup : List (UInt8 × UInt8) := [
  (Register.interruptEnable1, 0xD8),
  (Register.interruptEnable2, 0xFF),
  (Register.interruptEnable3, 0x00),
  (Register.interruptEnable4, 0x01),
  (Register.interruptEnable5, 0x00),
  (Register.interruptStatus1, 0xFF),
  (Register.interruptStatus2, 0xFF),
  (Register.interruptStatus3, 0xFF),
  (Register.interruptStatus4, 0xFF),
  (Register.interruptStatus5, 0xFF)]

/-- Read the chip's identity, then set up its interrupts. -/
def initChip (d : Device) : Access UInt8 := do
  let id ← d.readByte Register.chipId
  Program.log .info s!"AXP228 CHIP ID  : 0x{Hex.byte id} detected"
  interruptSetup.forM fun setup => d.writeByte setup.1 setup.2
  return id

def groups (d : Device) (s : Settings) : List Group := [
  ⟨"DCDC_FREQSET",
    applySlots d frequencyField "frequency spread / poly-phase / switch frequency" (frequencySlots s)⟩,
  ⟨"VOFF_SET", applyOffVoltage d s⟩,
  ⟨"ADC_CONTROL3", applyAdcControl d s⟩,
  ⟨"HOTOVER_CTL", applySlots d overheatField "hot-over / VBUS control" (overheatSlots s)⟩,
  ⟨"IRQ init", do let _ ← initChip d; return .written⟩]

/-- Apply every group and set up the interrupts, whatever fails on the way. -/
def probe (d : Device) (s : Settings) : Program Tally := do
  let tally ← Tally.empty.runGroups (groups d s)
  if tally.failed ≠ 0 then
    Program.log .error s!"AXP228: device init fail, {tally.failed} group(s) failed"
  return tally

end Bringup.Pmic
