import Bringup.Chip.Tally
import Bringup.Rail.Layout
import Bringup.Rail.Settings

namespace Bringup.Rail

open Chip

/-- A voltage between two steps is rounded down. -/
def setVoltage (d : Device) (r : Rail) (mv : Int32) : Access Bool := do
  match ← (r.range.encode mv : Checked _) with
  | none => throw .invalidInput
  | some selector => d.update r.voltageField (selector &&& r.voltageField.mask)

def voltage (d : Device) (r : Rail) : Access UInt16 := do
  let byte ← d.readByte r.voltageField.register
  r.range.decode (byte &&& r.voltageField.mask)

def setEnabled (d : Device) (r : Rail) (on : Bool) : Access Bool := d.assign r.enableField on

def enabled (d : Device) (r : Rail) : Access Bool := do
  let byte ← d.readByte r.enableField.register
  return byte &&& r.enableField.mask != 0

/-- Hold a converter at its fixed frequency, or let it skip pulses at light load. -/
def setForced (d : Device) (r : Rail) (forced : Bool) : Access Bool :=
  match r.modeField? with
  | none => throw .invalidInput
  | some f => d.assign f forced

def applyVoltage (d : Device) (r : Rail) (s : Settings) : Access Outcome :=
  match s.voltage with
  | none => return .skipped
  | some mv => return .ofWritten (← setVoltage d r mv)

/-- A mode configured for a rail that has none is passed over. -/
def applyMode (d : Device) (r : Rail) (s : Settings) : Access Outcome :=
  match s.mode with
  | none => return .skipped
  | some mode =>
      if r.modeField?.isSome then
        return .ofWritten (← setForced d r (mode != 0))
      else
        return .skipped

def applyEnable (d : Device) (r : Rail) (s : Settings) : Access Outcome :=
  match s.enable with
  | none => return .skipped
  | some on => return .ofWritten (← setEnabled d r (on != 0))

/-- The enable bit comes last, after voltage and mode. -/
def groups (d : Device) (r : Rail) (s : Settings) : List Group :=
  [⟨r.name, applyVoltage d r s⟩, ⟨r.name, applyMode d r s⟩, ⟨r.name, applyEnable d r s⟩]

def apply (d : Device) (r : Rail) (s : Settings) : Program Tally :=
  Tally.empty.runGroups (groups d r s)

/-- Add one rail to a pass over the table; without a node it is left alone. -/
def applyConfigured (d : Device) (t : Config.Table) (tally : Tally) (r : Rail) :
    Program Tally :=
  match Settings.ofTable? t r.name with
  | none => return tally
  | some s => do
      Program.log .debug s!"AXP228: configuring {r.name}"
      tally.merge (← apply d r s)

def applyAll (d : Device) (t : Config.Table) : Program Tally :=
  all.foldlM (applyConfigured d t) Tally.empty

end Bringup.Rail
