import Bringup.Charger.Settings
import Bringup.Chip.Bus

namespace Bringup

/-- How to tell a USB host from a supply that only powers VBUS. -/
inductive HostDetection where
  /-- No way to tell; VBUS counts as a host. -/
  | absent
  /-- VBUS is known to be a host. -/
  | assumed
  /-- Wait for a host to answer. -/
  | probed
  deriving DecidableEq, Repr

/-- The charger half of the power chip, always at the standard address. -/
structure Charger where
  settings : Charger.Settings
  detection : HostDetection
  deriving DecidableEq, Repr

namespace Charger

def device : Chip.Device := .standard

def ofTable (t : Config.Table) : Charger := ⟨.ofTable t, .absent⟩

end Charger

end Bringup
