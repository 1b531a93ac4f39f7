import Bringup.Bench.World
import Bringup.Link.Operation

namespace Bringup.Bench

open Link (LinkError Phase)

/-- A driver of the link on the bench. -/
structure LinkSession where
  link : Link
  world : World

namespace LinkSession

inductive Command where
  | poke (hdmi displayTop : WindowChange)
  /-- A fresh driver for the same windows. -/
  | renew
  /-- An operation, or the error that came up while it was put together. -/
  | operate (operation : Except LinkError Link.Operation)

/-- What one command came to, and the phase after it. -/
structure Step where
  reply : Checked (Except LinkError (Option Video.Resolution))
  phase : Phase
  events : List Event

def silent (s : LinkSession) (reply : Except LinkError (Option Video.Resolution)) :
    Step × LinkSession :=
  (⟨.ok reply, s.link.phase, []⟩, s)

def perform (s : LinkSession) (operation : Link.Operation) : Step × LinkSession :=
  let r := run (operation.perform.exec s.link) s.world
  match r.outcome with
  | .ok (reply, link) => (⟨.ok reply, link.phase, r.events⟩, ⟨link, r.board⟩)
  | .error c => (⟨.error c, s.link.phase, r.events⟩, { s with world := r.board })

def step (s : LinkSession) : Command → Step × LinkSession
  | .poke hdmi displayTop =>
      let world := { s.world with
        hdmi := s.world.hdmi.poke hdmi
        displayTop := s.world.displayTop.poke displayTop }
      ({ s with world } : LinkSession).silent (.ok none)
  | .renew => ({ s with link := .initial } : LinkSession).silent (.ok none)
  | .operate (.ok operation) => s.perform operation
  | .operate (.error e) => s.silent (.error e)

/-- Carry out commands in order; a fault ends the session. -/
def steps (s : LinkSession) : List Command → List Step × LinkSession
  | [] => ([], s)
  | command :: rest =>
      let (first, s) := s.step command
      match first.reply with
      | .error _ => ([first], s)
      | .ok _ =>
          let (others, s) := s.steps rest
          (first :: others, s)

end LinkSession

end Bringup.Bench
