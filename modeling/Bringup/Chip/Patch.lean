import Bringup.Chip.Tally

namespace Bringup.Chip

/-- Fields of one register gathered for a single update. A later field overrides the bits it
shares with an earlier one. -/
structure Patch where
  mask : UInt8
  bits : UInt8
  deriving DecidableEq, Repr

namespace Patch

def empty : Patch := ⟨0, 0⟩

def field (p : Patch) (mask bits : UInt8) : Patch :=
  ⟨p.mask ||| mask, (p.bits &&& ~~~mask) ||| (bits &&& mask)⟩

def flag (p : Patch) (mask : UInt8) (on : Bool) : Patch := p.field mask (if on then mask else 0)

/-- Take the field along if it is configured. -/
def field? (p : Patch) (mask : UInt8) : Option UInt8 → Patch
  | none => p
  | some bits => p.field mask bits

def flag? (p : Patch) (mask : UInt8) : Option Bool → Patch
  | none => p
  | some on => p.flag mask on

/-- A patch that covers nothing does not even look at the register. -/
def apply (p : Patch) (d : Device) (register : UInt8) : Access Outcome :=
  if p.mask = 0 then
    return .skipped
  else
    return .ofWritten (← d.update ⟨register, p.mask⟩ p.bits)

end Patch

end Bringup.Chip
