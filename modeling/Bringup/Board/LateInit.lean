import Bringup.Charger.Report
import Bringup.Window

namespace Bringup.Board

namespace Recovery

/-- Physical address of the always-on block. -/
def aliveBase : Nat := 0xC0010800

/-- Where the scratch word is read. -/
def scratchRead : Nat := 0xB4

/-- Ones written here clear the scratch word. -/
def scratchReset : Nat := 0xAC

/-- Left in the scratch word by a system that asks for recovery. -/
def signature : UInt32 := 0x52455343

/-- What to boot for recovery. -/
def bootCommand : String := "run recoveryboot"

/-- Look for a recovery request, and take it away if there is one. -/
def check : Program Bool := do
  let word ← Window.alive.load scratchRead
  Program.log .debug s!"signature --> 0x{Hex.digits word.toNat}"
  if word = signature then
    Program.log .info "reboot recovery!!!!"
    Window.alive.store scratchReset 0xFFFFFFFF
    return true
  else
    return false

end Recovery

structure LateInit where
  recovery : Bool
  /-- Nothing without a charger, or if it could not be read. -/
  charger : Option Charger.Report
  deriving DecidableEq, Repr

/-- Set a variable of the boot environment, or stop with the environment's message. -/
def setVariable (name value : String) : ExceptT String Program Unit :=
  ExceptT.mk (Program.setVariable name value)

/-- Report on a charger. One that cannot be read is no reason to stop. -/
def reportCharger (c : Charger) : Program (Option Charger.Report) := do
  match ← (Charger.Report.collect c).run with
  | .ok report =>
      report.log
      return some report
  | .error _ =>
      Program.log .warn "AXP228 Charger: status unavailable"
      return none

/-- The last step before booting: publish the board revision, honour a recovery request, and
report on the charger. -/
def lateInit (charger : Option Charger) : ExceptT String Program LateInit := do
  setVariable "board_rev" "0"
  let recovery ← Recovery.check
  if recovery then
    setVariable "bootcmd" Recovery.bootCommand
  match charger with
  | none => return ⟨recovery, none⟩
  | some c => return ⟨recovery, ← reportCharger c⟩

end Bringup.Board
