import Bringup.Chip.Bus
import Bringup.Chip.Register

namespace Bringup

/-- Step-down converters and linear regulators of the power chip. -/
inductive Rail where
  | dcdc1
  | dcdc2
  | dcdc3
  | dcdc4
  | dcdc5
  | aldo1
  | aldo2
  | aldo3
  | dldo1
  | dldo2
  | dldo3
  | dldo4
  | eldo1
  | eldo2
  | eldo3
  | dc5ldo
  deriving DecidableEq, Repr

namespace Rail

open Chip

def all : List Rail :=
  [dcdc1, dcdc2, dcdc3, dcdc4, dcdc5, aldo1, aldo2, aldo3, dldo1, dldo2, dldo3, dldo4, eldo1,
    eldo2, eldo3, dc5ldo]

def name : Rail → String
  | dcdc1 => "dcdc1"
  | dcdc2 => "dcdc2"
  | dcdc3 => "dcdc3"
  | dcdc4 => "dcdc4"
  | dcdc5 => "dcdc5"
  | aldo1 => "aldo1"
  | aldo2 => "aldo2"
  | aldo3 => "aldo3"
  | dldo1 => "dldo1"
  | dldo2 => "dldo2"
  | dldo3 => "dldo3"
  | dldo4 => "dldo4"
  | eldo1 => "eldo1"
  | eldo2 => "eldo2"
  | eldo3 => "eldo3"
  | dc5ldo => "dc5ldo"

/-- Voltages a rail can be set to, in millivolts. -/
structure VoltageRange where
  least : UInt16
  greatest : UInt16
  step : UInt16
  deriving DecidableEq, Repr

namespace VoltageRange

/-- Selector of the highest step at or below `mv`, for a voltage within the range. -/
def encode (r : VoltageRange) (mv : Int32) : Checked (Option UInt8) :=
  if mv.toInt < r.least.toNat ∨ r.greatest.toNat < mv.toInt then
    return none
  else do
    let steps ← Checked.div (mv.toInt - r.least.toNat).toNat r.step.toNat
    return some (UInt8.ofNat steps)

/-- Voltage of a selector, in range or not. -/
def decode (r : VoltageRange) (selector : UInt8) : Checked UInt16 := do
  let rise ← Checked.half .mulOverflow (selector.toNat * r.step.toNat)
  Checked.half .addOverflow (r.least.toNat + rise.toNat)

end VoltageRange

/-- Where a rail's settings live in the chip. -/
structure Layout where
  voltage : Field
  range : VoltageRange
  enableRegister : UInt8
  enableBit : UInt8
  /-- Only converters can be forced to switch at a fixed frequency. -/
  modeBit : Option UInt8
  deriving DecidableEq, Repr

def firstConverterRange : VoltageRange := ⟨1600, 3400, 100⟩

def coreConverterRange : VoltageRange := ⟨600, 1540, 20⟩

def memoryConverterRange : VoltageRange := ⟨1000, 2550, 50⟩

def regulatorRange : VoltageRange := ⟨700, 3300, 100⟩

def standbyRange : VoltageRange := ⟨700, 1400, 100⟩

def layout : Rail → Layout
  | dcdc1 => ⟨⟨Register.dcdc1Voltage, 0x1F⟩, firstConverterRange, Register.railEnable1, 1, some 0⟩
  | dcdc2 => ⟨⟨Register.dcdc2Voltage, 0x3F⟩, coreConverterRange, Register.railEnable1, 2, some 1⟩
  | dcdc3 => ⟨⟨Register.dcdc3Voltage, 0x3F⟩, coreConverterRange, Register.railEnable1, 3, some 2⟩
  | dcdc4 => ⟨⟨Register.dcdc4Voltage, 0x3F⟩, coreConverterRange, Register.railEnable1, 4, some 3⟩
  | dcdc5 => ⟨⟨Register.dcdc5Voltage, 0x1F⟩, memoryConverterRange, Register.railEnable1, 5, some 4⟩
  | aldo1 => ⟨⟨Register.aldo1Voltage, 0x1F⟩, regulatorRange, Register.railEnable1, 6, none⟩
  | aldo2 => ⟨⟨Register.aldo2Voltage, 0x1F⟩, regulatorRange, Register.railEnable1, 7, none⟩
  | aldo3 => ⟨⟨Register.aldo3Voltage, 0x1F⟩, regulatorRange, Register.railEnable3, 7, none⟩
  | dldo1 => ⟨⟨Register.dldo1Voltage, 0x1F⟩, regulatorRange, Register.railEnable2, 3, none⟩
  | dldo2 => ⟨⟨Register.dldo2Voltage, 0x1F⟩, regulatorRange, Register.railEnable2, 4, none⟩
  | dldo3 => ⟨⟨Register.dldo3Voltage, 0x1F⟩, regulatorRange, Register.railEnable2, 5, none⟩
  | dldo4 => ⟨⟨Register.dldo4Voltage, 0x1F⟩, regulatorRange, Register.railEnable2, 6, none⟩
  | eldo1 => ⟨⟨Register.eldo1Voltage, 0x1F⟩, regulatorRange, Register.railEnable2, 0, none⟩
  | eldo2 => ⟨⟨Register.eldo2Voltage, 0x1F⟩, regulatorRange, Register.railEnable2, 1, none⟩
  | eldo3 => ⟨⟨Register.eldo3Voltage, 0x1F⟩, regulatorRange, Register.railEnable2, 2, none⟩
  | dc5ldo => ⟨⟨Register.dc5ldoVoltage, 0x07⟩, standbyRange, Register.railEnable1, 0, none⟩

def voltageField (r : Rail) : Field := r.layout.voltage

def range (r : Rail) : VoltageRange := r.layout.range

def enableField (r : Rail) : Field := ⟨r.layout.enableRegister, (1 : UInt8) <<< r.layout.enableBit⟩

def modeField? (r : Rail) : Option Field :=
  r.layout.modeBit.map fun bit => ⟨Register.converterMode, (1 : UInt8) <<< bit⟩

end Rail

end Bringup
