import Bringup.Charger.Control

namespace Bringup.Charger

open Chip

/-- State of the charger as reported at boot. -/
structure Report where
  source : PowerSource
  batteryMillivolts : Nat
  percent : UInt8
  chargeMilliamps : Nat
  adapterMilliamps : Nat
  /-- Nothing when VBUS is not limited. -/
  vbusMilliamps : Option Nat
  deriving DecidableEq, Repr

namespace Report

/-- The limits are read after the source was found, which may have changed them. -/
def collect (c : Charger) : Access Report := do
  let source ← powerSource c
  let battery ← Charger.batteryMicrovolts
  let percent ← Charger.percent
  let charge ← chargeCurrent
  let adapter ← inputLimit .adapter
  let vbus ← inputLimit .usb
  return {
    source
    batteryMillivolts := battery / 1000
    percent
    chargeMilliamps := charge / 1000
    adapterMilliamps := adapter / 1000
    vbusMilliamps := if vbus / 1000 = 0 then none else some (vbus / 1000) }

def vbusText (r : Report) : String :=
  match r.vbusMilliamps with
  | some ma => s!"{ma}mA"
  | none => "No limit"

def lines (r : Report) : List String := [
  s!"AXP228 Charger: Type             : {r.source.label}",
  s!"AXP228 Charger: Vbatt            : {r.batteryMillivolts}mV",
  s!"AXP228 Charger: Gauge            : {r.percent}%",
  s!"AXP228 Charger: Charge Current   : {r.chargeMilliamps}mA",
  s!"AXP228 Charger: ADP Limit        : {r.adapterMilliamps}mA",
  s!"AXP228 Charger: USB Limit        : {r.vbusText}"]

def log (r : Report) : Program Unit := r.lines.forM (Program.log .info)

end Report

end Bringup.Charger
