import Bringup.Chip.Dump
import Bringup.Chip.Register
import Bringup.Chip.Status

namespace Bringup.Chip

/-- What can be asked of any chip with byte registers. -/
inductive Operation where
  | registerCount
  | address
  | read (start : UInt8) (count : Nat)
  | write (start : UInt8) (bytes : List UInt8)
  | readByte (register : UInt8)
  | writeByte (register byte : UInt8)
  | update (field : Field) (bits : UInt8)
  | set (field : Field)
  | clear (field : Field)
  | assign (field : Field) (on : Bool)
  | reportStatus
  | dump (title : String) (last : Nat)
  deriving DecidableEq, Repr

inductive Reply where
  | nothing
  | count (n : Nat)
  | byte (b : UInt8)
  | bytes (bs : List UInt8)
  | wrote (did : Bool)
  deriving DecidableEq, Repr

def Operation.perform (d : Device) : Operation → Access Reply
  | registerCount => return .count Register.last
  | address => return .byte d.address
  | read start count => return .bytes (← d.read start count).toList
  | write start bytes => do d.write start bytes; return .nothing
  | readByte register => return .byte (← d.readByte register)
  | writeByte register byte => do d.writeByte register byte; return .nothing
  | update field bits => return .wrote (← d.update field bits)
  | set field => return .wrote (← d.set field)
  | clear field => return .wrote (← d.clear field)
  | assign field on => return .wrote (← d.assign field on)
  | reportStatus => do d.reportStatus; return .nothing
  | dump title last => do d.dump title last; return .nothing

end Bringup.Chip
