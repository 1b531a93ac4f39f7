import Bringup.Charger.Calibration
import Bringup.Charger.Device
import Bringup.Charger.Field
import Bringup.Chip.Patch
import Bringup.Chip.Status

namespace Bringup.Charger

open Chip

def isOn (setting : Option Int32) : Option Bool := setting.map (· != 0)

def keyPatch (s : Settings) : Patch :=
  Patch.empty
    |>.field? Field.keyStart.mask (s.keyStart.map fun ms => PowerKey.startBits ms.toInt)
    |>.field? Field.keyLong.mask (s.keyLong.map fun ms => PowerKey.longBits ms.toInt)
    |>.flag? Field.keyOffEnable.mask (isOn s.keyOffEnable)
    |>.flag? Field.keyOffRestart.mask (isOn s.keyOffRestart)
    |>.field? Field.keyOff.mask (s.keyOff.map fun ms => PowerKey.offBits ms.toInt)

def offPatch (s : Settings) : Patch :=
  Patch.empty
    |>.field? Field.keyDelay.mask (s.keyDelay.map fun ms => PowerKey.delayBits ms.toInt)
    |>.flag? Field.lampFunction.mask (isOn s.lampFunction)

def applyFlag (f : Chip.Field) : Option Int32 → Access Outcome
  | none => return .skipped
  | some v => return .ofWritten (← device.assign f (v != 0))

/-- A voltage without a code is reported and leaves the hold as it is. -/
def holdPatch (p : Patch) (mv enable : Int32) : Program Patch :=
  if mv ≠ 0 ∧ enable ≠ 0 then
    match holdBits mv.toInt with
    | some bits => return p.field Field.holdVoltage.mask bits
    | none => do
        Program.log .warn s!"AXP228: VBUS hold {mv.toInt} mV out of range, left as is"
        return p
  else
    return p.flag Field.holdEnable.mask false

def configuredVbusLimit (ma enable : Int32) : VbusLimit :=
  if ma ≠ 0 ∧ enable ≠ 0 then
    if ma = 500 then .half else .full
  else
    .unlimited

structure VbusSettings where
  voltage : Int32
  voltageEnable : Int32
  current : Int32
  currentEnable : Int32
  deriving DecidableEq, Repr

/-- The VBUS settings count only together. -/
def Settings.vbus? (s : Settings) : Option VbusSettings := do
  let voltage ← s.holdVoltage
  let voltageEnable ← s.holdEnable
  let current ← s.vbusLimit
  let currentEnable ← s.vbusLimitEnable
  return { voltage, voltageEnable, current, currentEnable }

def applyVbus (s : Settings) : Access Outcome :=
  match s.vbus? with
  | none => throw (.incomplete "usbvolim / usbvollimen / usbcurlim / usbcurlimen")
  | some v => do
      let p ← holdPatch .empty v.voltage v.voltageEnable
      (p.field Field.vbusLimit.mask (configuredVbusLimit v.current v.currentEnable).code).apply
        device Register.vbus

def applyAdapterLimit (s : Settings) : Access Outcome :=
  match s.adapterLimit with
  | none => return .skipped
  | some ua =>
      return .ofWritten (← device.update Field.adapterLimit (Current.encode ua.toInt))

/-- Charge current while no adapter is usable, in microamperes. -/
def currentWithoutAdapter : Int := 500000

/-- A configured zero switches charging off. The configured current is meant for an adapter. -/
def applyChargeCurrent (s : Settings) : Access Outcome :=
  match s.chargeCurrent with
  | none => return .skipped
  | some ua => do
      let switched ← device.assign Field.chargeEnable (ua != 0)
      let status ← device.readByte Register.inputStatus
      let target := if StatusBit.adapterUsable.isSet status then ua.toInt else currentWithoutAdapter
      let changed ← device.update Field.chargeCurrent (Current.encode target)
      return .ofWritten (switched || changed)

def applyWarning (s : Settings) : Access Outcome :=
  match s.firstWarning, s.secondWarning with
  | some first, some second =>
      match warningByte first.toInt second.toInt with
      | none => throw .invalidInput
      | some byte => return .ofWritten (← device.update Field.warningLevel byte)
  | _, _ => throw (.incomplete "batlowlv1 / batlowlv2")

/-- Compare bytes with the registers from `register` on, up to the first difference. -/
def differs (register : UInt8) : List UInt8 → Access Bool
  | [] => return false
  | want :: rest => do
      if (← device.readByte register) ≠ want then
        return true
      else
        differs (register + 1) rest

/-- Write bytes one register at a time, from `register` on. -/
def writeAll (register : UInt8) : List UInt8 → Access Unit
  | [] => return ()
  | byte :: rest => do
      device.writeByte register byte
      writeAll (register + 1) rest

/-- The first difference makes the whole curve be written anew. -/
def applyCurve (s : Settings) : Access Outcome :=
  match s.curve with
  | none => return .skipped
  | some curve => do
      if ← differs Register.curve curve.bytes then
        writeAll Register.curve curve.bytes
        Program.log .info s!"AXP228: OCV table rewritten ({curve.bytes.length} entries)"
        return .written
      else
        return .unchanged

def writePair (high low : UInt8) (pair : BytePair) : Access Unit := do
  device.writeByte high pair.high
  device.writeByte low pair.low

/-- The resistance is written after the curve changed, or while the gauge has none. -/
def applyResistance (s : Settings) (curveChanged : Bool) : Access Outcome :=
  match s.resistance with
  | none => return .skipped
  | some mohm => do
      let high ← device.readByte Register.resistanceHigh
      if curveChanged || (mohm != 0 && high &&& Resistance.calibrated == 0) then
        let code ← (Resistance.encode mohm.toInt : Checked _)
        writePair Register.resistanceHigh Register.resistanceLow (Resistance.bytes code)
        return .written
      else
        return .unchanged

/-- The capacity is written after the curve changed, or while none is on record. A configured
zero takes a recorded capacity away. -/
def applyCapacity (s : Settings) (curveChanged : Bool) : Access Outcome :=
  match s.capacity with
  | none => return .skipped
  | some mah => do
      let high ← device.readByte Register.capacityHigh
      if curveChanged || (mah != 0 && high &&& Capacity.valid == 0) then
        let code ← (Capacity.encode mah.toInt : Checked _)
        writePair Register.capacityHigh Register.capacityLow (Capacity.bytes code)
        return .written
      else if mah = 0 then
        let low ← device.readByte Register.capacityLow
        if high ≠ 0 ∨ low ≠ 0 then
          writePair Register.capacityHigh Register.capacityLow ⟨0, 0⟩
          return .written
        else
          return .unchanged
      else
        return .unchanged

/-- The groups that stand on their own. -/
def groups (s : Settings) : List Group := [
  ⟨"POK_SET", (keyPatch s).apply device Register.powerKey⟩,
  ⟨"OFF_CTL", (offPatch s).apply device Register.offControl⟩,
  ⟨"CHGLED type", applyFlag Field.lampType s.lampType⟩,
  ⟨"capacity correction", applyFlag Field.capacityCorrection s.capacityCorrection⟩,
  ⟨"battery regulation", applyFlag Field.batteryRegulation s.batteryRegulation⟩,
  ⟨"battery detect", applyFlag Field.batteryDetect s.batteryDetect⟩,
  ⟨"USB limits", applyVbus s⟩,
  ⟨"limit current", applyAdapterLimit s⟩,
  ⟨"charge current", applyChargeCurrent s⟩,
  ⟨"warning level", applyWarning s⟩]

/-- The groups that have to follow a change of the curve. -/
def gaugeGroups (s : Settings) (curveChanged : Bool) : List Group := [
  ⟨"RDC", applyResistance s curveChanged⟩,
  ⟨"battery capacity", applyCapacity s curveChanged⟩]

/-- Apply every group in order, then report both status registers. A group that fails is
logged and given up; the others still run. -/
def probe (c : Charger) : Program Tally := do
  let tally ← Tally.empty.runGroups (groups c.settings)
  let curve ← (applyCurve c.settings).run
  let tally ← tally.record "OCV table" curve
  let curveChanged := match curve with
    | .ok .written => true
    | _ => false
  let tally ← tally.runGroups (gaugeGroups c.settings curveChanged)
  match ← device.reportStatus.run with
  | .ok () => return tally
  | .error e => tally.record "status" (.error e)

end Bringup.Charger
