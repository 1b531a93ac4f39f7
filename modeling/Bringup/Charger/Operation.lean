import Bringup.Charger.Probe
import Bringup.Charger.Report

namespace Bringup.Charger

open Chip

inductive Operation where
  | probe
  | batteryMicrovolts
  | percent
  | openMillivolts
  | chargeMilliamps
  | dischargeMilliamps
  | powerSource
  | chargeCurrent
  | setChargeCurrent (ua : UInt32)
  | inputLimit (source : PowerSource)
  | setInputLimit (source : PowerSource) (ua : UInt32)
  | report
  deriving DecidableEq, Repr

inductive Reply where
  | nothing
  | number (n : Nat)
  | source (s : PowerSource)
  | tally (t : Tally)
  | report (r : Report)
  deriving DecidableEq, Repr

def Operation.perform (c : Charger) : Operation → Access Reply
  | probe => return .tally (← Charger.probe c)
  | batteryMicrovolts => return .number (← Charger.batteryMicrovolts)
  | percent => return .number (← Charger.percent).toNat
  | openMillivolts => return .number (← Charger.openMillivolts)
  | chargeMilliamps => return .number (← Charger.chargeMilliamps)
  | dischargeMilliamps => return .number (← Charger.dischargeMilliamps)
  | powerSource => return .source (← Charger.powerSource c)
  | chargeCurrent => return .number (← Charger.chargeCurrent)
  | setChargeCurrent ua => do Charger.setChargeCurrent ua.toNat; return .nothing
  | inputLimit source => return .number (← Charger.inputLimit source)
  | setInputLimit source ua => do Charger.setInputLimit source ua.toNat; return .nothing
  | report => do
      let r ← Report.collect c
      r.log
      return .report r

end Bringup.Charger
