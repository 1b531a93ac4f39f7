import Bringup.Chip.Bus

namespace Bringup.Chip

/-- What became of one configuration group that met no error. -/
inductive Outcome where
  | written
  | unchanged
  /-- Nothing is configured for the group. -/
  | skipped
  deriving DecidableEq, Repr

def Outcome.ofWritten (written : Bool) : Outcome := if written then .written else .unchanged

/-- How the groups of a pass ended. -/
structure Tally where
  written : UInt8
  unchanged : UInt8
  skipped : UInt8
  incomplete : UInt8
  failed : UInt8
  deriving DecidableEq, Repr

namespace Tally

def empty : Tally := ⟨0, 0, 0, 0, 0⟩

/-- Counters are bytes, and a full one is a fault. -/
def count (a b : UInt8) : Checked UInt8 := Checked.byte .addOverflow (a.toNat + b.toNat)

/-- Count one group's result. Anything but success is logged before it is counted. -/
def record (t : Tally) (group : String) : Except ChipError Outcome → Program Tally
  | .ok .written => return { t with written := ← count t.written 1 }
  | .ok .unchanged => return { t with unchanged := ← count t.unchanged 1 }
  | .ok .skipped => return { t with skipped := ← count t.skipped 1 }
  | .error (.incomplete what) => do
      Program.log .debug s!"AXP228: {group} skipped, {what} not fully configured"
      return { t with incomplete := ← count t.incomplete 1 }
  | .error (.bus address register direction _) => do
      Program.log .error
        s!"AXP228: {group} failed, {direction.name} error at dev 0x{Hex.byte address} reg 0x{Hex.byte register}"
      return { t with failed := ← count t.failed 1 }
  | .error .invalidInput => do
      Program.log .warn s!"AXP228: {group} rejected, value out of range"
      return { t with failed := ← count t.failed 1 }

/-- Add up two passes. The counters are added in their order, and the first to overflow stops
the rest. -/
def merge (a b : Tally) : Checked Tally := do
  let written ← count a.written b.written
  let unchanged ← count a.unchanged b.unchanged
  let skipped ← count a.skipped b.skipped
  let incomplete ← count a.incomplete b.incomplete
  let failed ← count a.failed b.failed
  return { written, unchanged, skipped, incomplete, failed }

end Tally

/-- One step of a pass: what it is called in the log, and what it does. -/
structure Group where
  name : String
  action : Access Outcome

/-- Run groups in order. An error ends the group it happens in and nothing else. -/
def Tally.runGroups (t : Tally) (groups : List Group) : Program Tally :=
  groups.foldlM (fun t g => do t.record g.name (← g.action.run)) t

end Bringup.Chip
