import Bringup.Chip.Bus

namespace Bringup.Chip

/-- One row of a register dump: sixteen columns, each a byte or a register that did not
answer. A column past the last register is neither. -/
structure DumpRow where
  base : Nat
  columns : List (Option UInt8)
  deriving DecidableEq, Repr

namespace DumpRow

/-- Registers that did not answer and columns past the end both show as zero. -/
def byteAt (r : DumpRow) (column : Nat) : UInt8 := (r.columns[column]?.join).getD 0

/-- Bit `i` is set when the register in column `i` did not answer. -/
def missing (r : DumpRow) : Nat :=
  (List.range 16).foldl (fun m i => if r.columns[i]? = some none then m ||| 1 <<< i else m) 0

def quad (r : DumpRow) (column : Nat) : String :=
  String.intercalate " " ((List.range' column 4).map fun i => Hex.byte (r.byteAt i))

def line (r : DumpRow) : String :=
  let quads := String.intercalate "  " ([0, 4, 8, 12].map r.quad)
  s!"  {Hex.padded 2 (r.base % 256)}: {quads}  missing 0x{Hex.padded 4 r.missing}"

end DumpRow

namespace Device

/-- The byte in a register, or nothing if it does not answer. -/
def peek (d : Device) (register : Nat) : Program (Option UInt8) :=
  return (← (d.readByte (UInt8.ofNat register)).run).toOption

/-- Read the sixteen registers from `base` on, as far as `last`. -/
def dumpRow (d : Device) (last base : Nat) : Program DumpRow :=
  return ⟨base, ← (List.range' base (min 16 (last + 1 - base))).mapM d.peek⟩

/-- Log the registers from zero to `last`, sixteen to a row. -/
def dump (d : Device) (title : String) (last : Nat) : Program Unit := do
  Program.log .info s!"AXP228: {title}"
  (List.range (last / 16 + 1)).forM fun row => do
    Program.log .info (← d.dumpRow last (16 * row)).line

end Device

end Bringup.Chip
