import Bringup.Chip.Dump
import Bringup.Proofs.MemoryChip

/-! The register dump. Every register is read once, in order, and what it answered is shown in its
place. One that does not answer is marked in its row, and the dump goes on. -/
namespace Bringup

open Bench (MemoryChip)
open Chip

namespace Bench.MemoryChip

/-- The chip once so many transfers have gone by. -/
def later (m : MemoryChip) (transfers : Nat) : MemoryChip :=
  { m with plan := fun n => m.plan (n + transfers) }

/-- What comes of reading the registers from zero on with a transfer for each. Of a greater number
than registers have, the low byte counts. -/
def answer (m : MemoryChip) (r : Nat) : Except Int UInt8 :=
  match m.plan r (UInt8.ofNat r) .read with
  | some code => .error code
  | none => .ok (m.get (UInt8.ofNat r))

end Bench.MemoryChip

namespace Chip

/-! ## Rows as text -/

namespace DumpRow

end DumpRow

/-! ## Reading the registers of a row -/

namespace Device

variable (d : Device) (m : MemoryChip)

/-- The transfer for a register. -/
def transfer (r : Nat) : Event :=
  ⟨.busRead d.address (UInt8.ofNat r) 1, (m.answer r).map (Vector.replicate 1)⟩

/-- How many registers a row has, up to the last. -/
def width (last row : Nat) : Nat := min 16 (last + 1 - 16 * row)

/-- What the registers of a row answered. -/
def answered (last row : Nat) : DumpRow :=
  ⟨16 * row, (List.range' (16 * row) (width last row)).map fun r => (m.answer r).toOption⟩

/-- What is shown for a register: its byte, or zero if it did not answer or is beyond the last. -/
def shown (last r : Nat) : UInt8 := if r ≤ last then (m.answer r).toOption.getD 0 else 0

/-- A sum, unless it is more than the greatest number there is. -/
def sum (limit a b : Nat) : Checked Nat := if a + b ≤ limit then .ok (a + b) else .error .addOverflow

end Device

end Chip

end Bringup
