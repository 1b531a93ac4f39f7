import Bringup.Charger.Probe
import Bringup.Pmic.Probe
import Bringup.Rail.Control

namespace Bringup.Board

open Chip

/-- Set up the power chip, then bring every configured rail to its configured state. A table
without the chip's node is left alone. -/
def initPower (t : Config.Table) : Program (Option Tally) :=
  if t.hasNode Pmic.node then do
    let chip ← Pmic.probe .standard (.ofTable t)
    let rails ← Rail.applyAll .standard t
    let tally ← (chip.merge rails : Checked _)
    Program.log .info
      s!"AXP228: power init done, {tally.written} written, {tally.unchanged} unchanged, {tally.failed} failed"
    return some tally
  else do
    Program.log .error s!"Can't get PMIC: {Pmic.node}!"
    return none

/-- Set up the charger from its table. -/
def initCharger (t : Config.Table) : Program (Charger × Tally) := do
  let charger := Charger.ofTable t
  return (charger, ← charger.probe)

end Bringup.Board
