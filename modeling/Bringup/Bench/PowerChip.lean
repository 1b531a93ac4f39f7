import Bringup.Bench.RegisterFile
import Bringup.Chip.Bus

namespace Bringup.Bench

open Chip (Direction)

/-- Values that registers are going to show, one at a time, by address. -/
structure Queues (κ β : Type) where
  entries : List (κ × List β)
  deriving DecidableEq, Repr

namespace Queues

variable {κ β : Type} [BEq κ]

def empty : Queues κ β := ⟨[]⟩

/-- What is still to come at an address. -/
def pending (q : Queues κ β) (address : κ) : List β := (q.entries.lookup address).getD []

def put (q : Queues κ β) (address : κ) (values : List β) : Queues κ β :=
  ⟨(address, values) :: q.entries⟩

def pop? (q : Queues κ β) (address : κ) : Option (β × Queues κ β) :=
  match q.pending address with
  | [] => none
  | v :: rest => some (v, q.put address rest)

end Queues

/-- Makes transfers fail. A rule without a register or direction matches every one; it lets
`skip` matching transfers go before it starts, and fails `times` of them, or all. -/
structure FaultRule where
  register : Option UInt8
  direction : Option Direction
  skip : Nat
  times : Option Nat
  code : Int
  deriving DecidableEq, Repr

namespace FaultRule

def covers (r : FaultRule) (register : UInt8) (direction : Direction) : Bool :=
  (r.register.all (· == register)) && (r.direction.all (· == direction))

/-- The code with which a transfer fails, if it does, and the rules after it. The first rule
that is ready to fail it is the one that does. -/
def consult (register : UInt8) (direction : Direction) :
    List FaultRule → Option Int × List FaultRule
  | [] => (none, [])
  | rule :: rest =>
      if rule.covers register direction then
        match rule.skip, rule.times with
        | skip + 1, _ =>
            let (code, rest) := consult register direction rest
            (code, { rule with skip } :: rest)
        | 0, some 0 =>
            let (code, rest) := consult register direction rest
            (code, rule :: rest)
        | 0, some (times + 1) => (some rule.code, { rule with times := some times } :: rest)
        | 0, none => (some rule.code, rule :: rest)
      else
        let (code, rest) := consult register direction rest
        (code, rule :: rest)

end FaultRule

/-- A power chip on the bench: registers, values they are yet to show, and transfers that are
to fail. -/
structure PowerChip where
  registers : RegisterFile
  queues : Queues UInt8 UInt8
  rules : List FaultRule
  deriving DecidableEq, Repr

namespace PowerChip

def initial : PowerChip := ⟨.zero, .empty, []⟩

/-- Looking at a register takes in the next value it was to show. -/
def look (c : PowerChip) (register : UInt8) : UInt8 × PowerChip :=
  match c.queues.pop? register with
  | none => (c.registers.get register, c)
  | some (byte, queues) =>
      (byte, { c with queues, registers := c.registers.set register byte })

def lookAll (c : PowerChip) (start : UInt8) : (count : Nat) → Vector UInt8 count × PowerChip
  | 0 => (#v[], c)
  | count + 1 =>
      let (front, c) := c.lookAll start count
      let (byte, c) := c.look (start + UInt8.ofNat count)
      (front.push byte, c)

/-- A transfer that fails changes nothing but the rules. -/
def read (c : PowerChip) (start : UInt8) (count : Nat) :
    Except Int (Vector UInt8 count) × PowerChip :=
  let (failure, rules) := FaultRule.consult start .read c.rules
  match failure with
  | some code => (.error code, { c with rules })
  | none =>
      let (bytes, c) := { c with rules }.lookAll start count
      (.ok bytes, c)

def write (c : PowerChip) (start : UInt8) (bytes : List UInt8) : Except Int Unit × PowerChip :=
  let (failure, rules) := FaultRule.consult start .write c.rules
  match failure with
  | some code => (.error code, { c with rules })
  | none => (.ok (), { c with rules, registers := c.registers.setAll start bytes })

end PowerChip

end Bringup.Bench
