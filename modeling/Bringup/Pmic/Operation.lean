import Bringup.Pmic.Probe
import Bringup.Rail.Control

namespace Bringup.Pmic

open Chip

inductive Operation where
  | probe (settings : Settings)
  | initChip
  | setVoltage (rail : Rail) (mv : Int32)
  | voltage (rail : Rail)
  | setEnabled (rail : Rail) (on : Bool)
  | enabled (rail : Rail)
  | setForced (rail : Rail) (forced : Bool)
  | applyRail (rail : Rail) (settings : Rail.Settings)
  | applyRails (table : Config.Table)
  deriving DecidableEq, Repr

inductive Reply where
  | wrote (did : Bool)
  | enabled (on : Bool)
  | number (n : Nat)
  | tally (t : Tally)
  deriving DecidableEq, Repr

def Operation.perform (d : Device) : Operation → Access Reply
  | probe settings => return .tally (← Pmic.probe d settings)
  | initChip => return .number (← Pmic.initChip d).toNat
  | setVoltage rail mv => return .wrote (← rail.setVoltage d mv)
  | voltage rail => return .number (← rail.voltage d).toNat
  | setEnabled rail on => return .wrote (← rail.setEnabled d on)
  | enabled rail => return .enabled (← rail.enabled d)
  | setForced rail forced => return .wrote (← rail.setForced d forced)
  | applyRail rail settings => return .tally (← rail.apply d settings)
  | applyRails table => return .tally (← Rail.applyAll d table)

end Bringup.Pmic
