import Bringup.Bench.World
import Bringup.Board.LateInit
import Bringup.Board.Power
import Bringup.Charger.Operation
import Bringup.Chip.Operation
import Bringup.Pmic.Operation

namespace Bringup.Bench

open Chip (Access ChipError Device Tally)

/-- Three users of one power chip on the bench: a plain register user, the rails, and the
charger. -/
structure ChipSession where
  plain : Device
  pmic : Device
  charger : Charger
  world : World

namespace ChipSession

inductive Command where
  /-- Change registers, and what they are to show, behind everyone's back. -/
  | poke (registers : List (UInt8 × UInt8)) (queues : List (UInt8 × List UInt8))
  | setRules (rules : List FaultRule)
  | renewPlain
  | renewPmic
  | renewCharger (charger : Charger) (hosts : List Bool)
  | plain (operation : Chip.Operation)
  /-- Register access through the device of the rails. -/
  | pmicPlain (operation : Chip.Operation)
  | pmic (operation : Pmic.Operation)
  | chargerSettings
  | charger (operation : Charger.Operation)
  | initPower (table : Config.Table)
  /-- The charger that comes out of this replaces the session's. -/
  | initCharger (table : Config.Table)
  | lateInit (alive : WindowChange) (refused : List String) (withCharger : Bool)

inductive Reply where
  | nothing
  | plain (r : Chip.Reply)
  | pmic (r : Pmic.Reply)
  | charger (r : Charger.Reply)
  | settings (s : Charger.Settings)
  | tally (t : Option Tally)
  | lateInit (r : Except String Board.LateInit)

/-- What one command came to. -/
structure Step where
  reply : Checked (Except ChipError Reply)
  events : List Event

def silent (reply : Reply) : Step := ⟨.ok (.ok reply), []⟩

/-- Run a program in the session; `keep` says what it leaves to the session itself. -/
def finish {α : Type} (s : ChipSession) (p : Program α) (reply : α → Except ChipError Reply)
    (keep : α → ChipSession → ChipSession) : Step × ChipSession :=
  let r := run p s.world
  let s := { s with world := r.board }
  match r.outcome with
  | .ok a => (⟨.ok (reply a), r.events⟩, keep a s)
  | .error c => (⟨.error c, r.events⟩, s)

def access {α : Type} (s : ChipSession) (p : Access α) (reply : α → Reply) : Step × ChipSession :=
  s.finish p.run (fun result => result.map reply) fun _ s => s

def pokeChip (c : PowerChip) (registers : List (UInt8 × UInt8))
    (queues : List (UInt8 × List UInt8)) : PowerChip :=
  { c with
    registers := registers.foldl (fun f p => f.set p.1 p.2) c.registers
    queues := queues.foldl (fun q p => q.put p.1 p.2) c.queues }

def step (s : ChipSession) : Command → Step × ChipSession
  | .poke registers queues =>
      (silent .nothing,
        { s with world := { s.world with chip := pokeChip s.world.chip registers queues } })
  | .setRules rules =>
      (silent .nothing, { s with world := { s.world with chip := { s.world.chip with rules } } })
  | .renewPlain =>
      ({ s with plain := .standard } : ChipSession).access
        (Chip.Operation.address.perform .standard) .plain
  | .renewPmic => (silent .nothing, { s with pmic := .standard })
  | .renewCharger charger hosts =>
      (silent .nothing, { s with charger, world := { s.world with hosts } })
  | .plain operation => s.access (operation.perform s.plain) .plain
  | .pmicPlain operation => s.access (operation.perform s.pmic) .plain
  | .pmic operation => s.access (operation.perform s.pmic) .pmic
  | .chargerSettings => (silent (.settings s.charger.settings), s)
  | .charger operation => s.access (operation.perform s.charger) .charger
  | .initPower table => s.finish (Board.initPower table) (fun t => .ok (.tally t)) fun _ s => s
  | .initCharger table =>
      s.finish (Board.initCharger table) (fun r => .ok (.tally (some r.2)))
        fun r s => { s with charger := r.1 }
  | .lateInit alive refused withCharger =>
      let s := { s with world := { s.world with alive := WordWindow.initial.poke alive, refused } }
      s.finish (Board.lateInit (if withCharger then some s.charger else none)).run
        (fun r => .ok (.lateInit r)) fun _ s => s

/-- Carry out commands in order; a fault ends the session. -/
def steps (s : ChipSession) : List Command → List Step × ChipSession
  | [] => ([], s)
  | command :: rest =>
      let (first, s) := s.step command
      match first.reply with
      | .error _ => ([first], s)
      | .ok _ =>
          let (others, s) := s.steps rest
          (first :: others, s)

end ChipSession

end Bringup.Bench
