import Bringup.Program

namespace Bringup.Chip

inductive Direction where
  | read
  | write
  deriving DecidableEq, Repr

def Direction.name : Direction → String
  | .read => "Read"
  | .write => "Write"

inductive ChipError where
  /-- A transfer failed; says which one and how. -/
  | bus (address register : UInt8) (direction : Direction) (code : Int)
  /-- A group needs several properties together and at least one is missing. -/
  | incomplete (what : String)
  /-- A value the hardware cannot take. -/
  | invalidInput
  deriving DecidableEq, Repr

def ChipError.isBus : ChipError → Bool
  | .bus .. => true
  | _ => false

/-- Chip access stops at its first error. -/
abbrev Access := ExceptT ChipError Program

/-- The bits of one register picked out by a mask. -/
structure Field where
  register : UInt8
  mask : UInt8
  deriving DecidableEq, Repr

namespace Field

/-- The register's byte once the field holds `bits` and all else is as in `byte`. -/
def replace (f : Field) (byte bits : UInt8) : UInt8 := (byte &&& ~~~f.mask) ||| bits

/-- All of the field's bits, or none of them. -/
def fill (f : Field) (on : Bool) : UInt8 := if on then f.mask else 0

end Field

/-- A chip on the bus, by its seven-bit address. -/
structure Device where
  address : UInt8
  deriving DecidableEq, Repr

namespace Device

def standard : Device := ⟨0x34⟩

def read (d : Device) (start : UInt8) (count : Nat) : Access (Vector UInt8 count) := do
  match ← Program.busRead d.address start count with
  | .ok bytes => return bytes
  | .error code =>
      Program.log .error
        s!"AXP228: read error from dev 0x{Hex.byte d.address} reg 0x{Hex.byte start}"
      throw (.bus d.address start .read code)

def write (d : Device) (start : UInt8) (bytes : List UInt8) : Access Unit := do
  match ← Program.busWrite d.address start bytes with
  | .ok () => return ()
  | .error code =>
      Program.log .error
        s!"AXP228: write error to dev 0x{Hex.byte d.address} reg 0x{Hex.byte start}"
      throw (.bus d.address start .write code)

def readByte (d : Device) (register : UInt8) : Access UInt8 := do
  let bytes ← d.read register 1
  return bytes[0]

def writeByte (d : Device) (register byte : UInt8) : Access Unit := d.write register [byte]

/-- Bring a field to `bits`, writing only when the register does not hold them yet. The answer
says whether it wrote. -/
def update (d : Device) (f : Field) (bits : UInt8) : Access Bool :=
  if bits &&& ~~~f.mask ≠ 0 then
    throw .invalidInput
  else do
    let current ← d.readByte f.register
    let next := f.replace current bits
    if next = current then
      return false
    else
      d.writeByte f.register next
      return true

def set (d : Device) (f : Field) : Access Bool := d.update f f.mask

def clear (d : Device) (f : Field) : Access Bool := d.update f 0

def assign (d : Device) (f : Field) (on : Bool) : Access Bool := d.update f (f.fill on)

end Device

end Bringup.Chip
