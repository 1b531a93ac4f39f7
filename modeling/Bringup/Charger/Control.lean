import Bringup.Charger.Device
import Bringup.Charger.Field
import Bringup.Chip.Status

namespace Bringup.Charger

open Chip

/-- Where the board draws its power from. -/
inductive PowerSource where
  | none
  /-- A wall adapter, or a supply on VBUS with no host behind it. -/
  | adapter
  | usb
  deriving DecidableEq, Repr

def PowerSource.label : PowerSource → String
  | .none => "NONE"
  | .adapter => "ADP"
  | .usb => "USB"

def measure (high : UInt8) : Access UInt16 := do
  let upper ← device.readByte high
  let lower ← device.readByte (high + 1)
  return Measurement.join upper lower

def openMillivolts : Access Nat :=
  return Measurement.openMillivolts (← measure Register.openVoltageHigh)

def chargeMilliamps : Access Nat :=
  return Measurement.chargeMilliamps (← measure Register.chargeCurrentHigh)

def dischargeMilliamps : Access Nat :=
  return Measurement.dischargeMilliamps (← measure Register.dischargeCurrentHigh)

def sampleCount : Nat := 5

/-- Milliseconds before each sample. -/
def sampleInterval : Nat := 1

def sampleBattery : Access Nat := do
  Program.wait sampleInterval
  return Measurement.batteryMillivolts (← measure Register.batteryVoltageHigh)

/-- Battery voltage in microvolts: the mean of a few samples, in whole millivolts. -/
def batteryMicrovolts : Access Nat := do
  let samples ← (List.range sampleCount).mapM fun _ => sampleBattery
  return samples.foldl (· + ·) 0 / sampleCount * 1000

/-- Charge left in the battery, in percent. -/
def percent : Access UInt8 :=
  return (← device.readByte Field.percent.register) &&& Field.percent.mask

def setVbusLimit (limit : VbusLimit) : Access Bool := device.update Field.vbusLimit limit.code

/-- Milliseconds to wait for a host when nothing is configured. -/
def defaultHostTimeout : Nat := 500

/-- A negative time is no time. -/
def Settings.hostTimeoutMs (s : Settings) : Nat :=
  match s.hostTimeout with
  | none => defaultHostTimeout
  | some ms => ms.toInt.toNat

/-- Whether a host is behind VBUS. Only a detector can say that there is none. -/
def hostPresent (c : Charger) : Program Bool :=
  match c.detection with
  | .absent | .assumed => return true
  | .probed => Program.detectHost c.settings.hostTimeoutMs

/-- Find the source in use. Unless that is the adapter input, this also sets the VBUS limit to
suit what is there. -/
def powerSource (c : Charger) : Access PowerSource := do
  let status ← device.readByte Register.inputStatus
  if StatusBit.adapterPresent.isSet status then
    return .adapter
  else if StatusBit.vbusPresent.isSet status then
    if ← hostPresent c then
      let _ ← setVbusLimit .half
      return .usb
    else
      let _ ← setVbusLimit .full
      return .adapter
  else
    let _ ← setVbusLimit .half
    return .none

/-- Charge current in microamperes. -/
def chargeCurrent : Access Nat :=
  return Current.decode (← device.readByte Field.chargeCurrent.register)

def setChargeCurrent (ua : Nat) : Access Unit := do
  let _ ← device.update Field.chargeCurrent (Current.encode ua)

/-- Current limit of a source in microamperes, zero standing for no limit. -/
def inputLimit : PowerSource → Access Nat
  | .adapter => return Current.decode (← device.readByte Field.adapterLimit.register)
  | .usb => return (VbusLimit.ofCode (← device.readByte Field.vbusLimit.register)).microamps
  | .none => throw .invalidInput

def setInputLimit (source : PowerSource) (ua : Nat) : Access Unit :=
  match source with
  | .adapter => do
      let _ ← device.update Field.adapterLimit (Current.encode ua)
  | .usb => do
      let _ ← setVbusLimit (.ofMicroamps ua)
  | .none => throw .invalidInput

end Bringup.Charger
