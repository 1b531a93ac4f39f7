import Bringup.Bench.RegisterFile
import Bringup.Chip.Bus
import Bringup.Program.Run

/-! Accesses on a chip whose registers are plain memory. The chip carries a plan of the transfers
that are to fail, so that a statement about every plan is one about every way a bus can fail. -/
namespace Bringup

/-- The bytes a request tries to write, and where they start. Whether they arrive is the
answer's business. -/
def Event.write? : Event → Option (UInt8 × List UInt8)
  | ⟨.busWrite _ start bytes, _⟩ => some (start, bytes)
  | _ => none

/-- A transfer on the bus, whatever came of it. -/
def Event.isTransfer : Event → Bool
  | ⟨.busRead .., _⟩ => true
  | ⟨.busWrite .., _⟩ => true
  | _ => false

theorem Event.write?_of_not_transfer {e : Event} (h : e.isTransfer = false) : e.write? = none := by
  obtain ⟨request, answer⟩ := e
  cases request with
  | busWrite => cases h
  | _ => rfl

/-- Only transfers write. -/
theorem Event.filterMap_write_transfers (events : List Event) :
    (events.filter Event.isTransfer).filterMap Event.write? = events.filterMap Event.write? := by
  rw [List.filterMap_filter]
  congr
  funext e
  cases transfer : e.isTransfer with
  | true => rfl
  | false => exact (Event.write?_of_not_transfer transfer).symm

namespace Program.Run

variable {σ α β : Type}

/-- The write transfers of a run, in order. -/
def writes (r : Run σ α) : List (UInt8 × List UInt8) := r.events.filterMap Event.write?

@[simp]
theorem writes_mk (o : Checked α) (events : List Event) (s : σ) :
    writes ⟨o, events, s⟩ = events.filterMap Event.write? := rfl

end Program.Run

@[simp]
theorem Program.run_liftM_checked {σ α : Type} (board : Program.Board σ) (c : Checked α) (s : σ) :
    (liftM c : Program α).run board s = ⟨c, [], s⟩ :=
  run_ofChecked board c s

namespace Chip.Device

/-- What is logged when a read fails. -/
def readFailure (d : Device) (register : UInt8) : Log.Entry :=
  ⟨.error, s!"AXP228: read error from dev 0x{Hex.byte d.address} reg 0x{Hex.byte register}"⟩

/-- A byte on any board: one transfer, and a line in the log if it fails. -/
theorem run_readByte_on {σ : Type} (board : Program.Board σ) (d : Device) (r : UInt8) (s : σ) :
    (d.readByte r).run.run board s =
      match board s (.busRead d.address r 1) with
      | (.ok bytes, s') => ⟨.ok (.ok (bytes.get ⟨0, Nat.one_pos⟩)), [⟨.busRead d.address r 1, .ok bytes⟩], s'⟩
      | (.error code, s') => ⟨.ok (.error (.bus d.address r .read code)),
          [⟨.busRead d.address r 1, .error code⟩, ⟨.log (d.readFailure r), ()⟩],
          (board s' (.log (d.readFailure r))).2⟩ := by
  have asked : (liftM (Program.busRead d.address r 1) : Access _).run.run board s =
      ⟨.ok (.ok (board s (.busRead d.address r 1)).1),
        [⟨.busRead d.address r 1, (board s (.busRead d.address r 1)).1⟩],
        (board s (.busRead d.address r 1)).2⟩ := rfl
  rw [Device.readByte, Program.run_bind_except, Device.read, Program.run_bind_except, asked,
    Program.Run.andThen_ok]
  rcases board s (.busRead d.address r 1) with ⟨bytes | code, s'⟩ <;> rfl

end Chip.Device
namespace Bench

open Chip (Access ChipError Device Direction)

/-- Which transfers fail, and with which code, by first register and direction. -/
abbrev Faults := UInt8 → Direction → Option Int

/-- The bus lets every transfer through. -/
def Faults.none : Faults := fun _ _ => Option.none

/-- Writing to one register fails, and nothing else does. -/
def Faults.failsWrite (r : UInt8) (code : Int) : Faults :=
  fun r' direction => if r' = r ∧ direction = .write then some code else Option.none

/-- Which of the transfers to come fail, and with which code. A plan is asked with the number
of transfers before the one in question, the register it starts at and its direction. -/
def Plan := Nat → Faults

namespace Plan

/-- The plan once a transfer has gone by. -/
def next (p : Plan) : Plan := fun n => p (n + 1)

/-- A transfer's register and direction alone decide whether it fails. -/
def always (q : Faults) : Plan := fun _ => q

def never : Plan := always Faults.none

end Plan

/-- A chip with plain memory for registers, what the bus has in store for it, and what the host
detector beside it is going to answer. -/
structure MemoryChip where
  registers : RegisterFile
  plan : Plan
  hosts : Nat → Bool

namespace MemoryChip

variable {α β : Type}

def get (m : MemoryChip) (r : UInt8) : UInt8 := m.registers.get r

def set (m : MemoryChip) (r byte : UInt8) : MemoryChip :=
  { m with registers := m.registers.set r byte }

def next (m : MemoryChip) : MemoryChip := { m with plan := m.plan.next }

/-- The same chip on a bus that never fails. -/
def reliable (m : MemoryChip) : MemoryChip := { m with plan := .never }

/-- Bytes at consecutive addresses; the last address is followed by the first. -/
def getAll (m : MemoryChip) (start : UInt8) (count : Nat) : Vector UInt8 count :=
  .ofFn fun i => m.get (start + UInt8.ofNat i)

/-- A transfer that fails changes no register. -/
def board : Program.Board MemoryChip
  | m, .busRead _ start count =>
      match m.plan 0 start .read with
      | some code => (.error code, m.next)
      | none => (.ok (m.getAll start count), m.next)
  | m, .busWrite _ start bytes =>
      match m.plan 0 start .write with
      | some code => (.error code, m.next)
      | none => (.ok (), { m.next with registers := m.registers.setAll start bytes })
  | m, .detectHost _ => (m.hosts 0, { m with hosts := fun n => m.hosts (n + 1) })
  | m, .load .. => (0, m)
  | m, .setVariable .. => (.ok (), m)
  | m, .loadImage _ => (.ok (), m)
  | m, .store .. => ((), m)
  | m, .wait _ => ((), m)
  | m, .reset .. => ((), m)
  | m, .showDisplay _ => ((), m)
  | m, .log _ => ((), m)

/-- What an access comes to on the chip. -/
def run (m : MemoryChip) (p : Access α) : Program.Run MemoryChip (Except ChipError α) :=
  p.run.run board m

@[simp]
theorem run_pure (m : MemoryChip) (a : α) : m.run (pure a) = ⟨.ok (.ok a), [], m⟩ := rfl

@[simp]
theorem run_throw (m : MemoryChip) (e : ChipError) :
    m.run (throw e : Access α) = ⟨.ok (.error e), [], m⟩ := rfl

@[simp]
theorem run_bind (m : MemoryChip) (p : Access α) (f : α → Access β) :
    m.run (p >>= f) = (m.run p).andThen fun r m =>
      match r with
      | .ok a => m.run (f a)
      | .error e => ⟨.ok (.error e), [], m⟩ := by
  rw [run, Program.run_bind_except]
  congr
  funext r m
  cases r <;> rfl

@[simp]
theorem run_map (m : MemoryChip) (g : α → β) (p : Access α) :
    m.run (g <$> p) =
      ⟨(m.run p).outcome.map (·.map g), (m.run p).events, (m.run p).board⟩ := by
  rw [map_eq_pure_bind, run_bind]
  rcases m.run p with ⟨_ | _ | _, events, m⟩ <;> simp [Except.map]

theorem run_liftM (m : MemoryChip) (p : Program α) :
    m.run (liftM p) =
      ⟨(p.run board m).outcome.map .ok, (p.run board m).events, (p.run board m).board⟩ := by
  change (Except.ok <$> p).run board m = _
  simp

@[simp]
theorem run_log (m : MemoryChip) (level : Log.Level) (text : String) :
    m.run (liftM (Program.log level text)) = ⟨.ok (.ok ()), [⟨.log ⟨level, text⟩, ()⟩], m⟩ := rfl

/-! ## Transfers -/

section
variable (m : MemoryChip) (d : Device) (start : UInt8)

theorem run_read (count : Nat) (h : m.plan 0 start .read = none) :
    m.run (d.read start count) =
      ⟨.ok (.ok (m.getAll start count)),
        [⟨.busRead d.address start count, .ok (m.getAll start count)⟩], m.next⟩ := by
  simp [Device.read, run_liftM, Program.single, board, h, Except.map]

theorem run_read_fails (count : Nat) {code : Int} (h : m.plan 0 start .read = some code) :
    ∃ line, m.run (d.read start count) =
      ⟨.ok (.error (.bus d.address start .read code)),
        [⟨.busRead d.address start count, .error code⟩, ⟨.log line, ()⟩], m.next⟩ := by
  simp [Device.read, run_liftM, Program.single, board, h, Except.map]

theorem run_write (bytes : List UInt8) (h : m.plan 0 start .write = none) :
    m.run (d.write start bytes) =
      ⟨.ok (.ok ()), [⟨.busWrite d.address start bytes, .ok ()⟩],
        { m.next with registers := m.registers.setAll start bytes }⟩ := by
  simp [Device.write, run_liftM, Program.single, board, h, Except.map]

theorem run_write_fails (bytes : List UInt8) {code : Int} (h : m.plan 0 start .write = some code) :
    ∃ line, m.run (d.write start bytes) =
      ⟨.ok (.error (.bus d.address start .write code)),
        [⟨.busWrite d.address start bytes, .error code⟩, ⟨.log line, ()⟩], m.next⟩ := by
  simp [Device.write, run_liftM, Program.single, board, h, Except.map]

theorem getAll_one : m.getAll start 1 = #v[m.get start] := by
  apply Vector.ext
  intro i hi
  obtain rfl : i = 0 := by omega
  simp [getAll]

theorem run_readByte_next (h : m.plan 0 start .read = none) :
    m.run (d.readByte start) =
      ⟨.ok (.ok (m.get start)), [⟨.busRead d.address start 1, .ok #v[m.get start]⟩], m.next⟩ := by
  simp [Device.readByte, run_read m d start 1 h, getAll_one, Except.map]

theorem run_readByte_next_fails {code : Int} (h : m.plan 0 start .read = some code) :
    ∃ line, m.run (d.readByte start) =
      ⟨.ok (.error (.bus d.address start .read code)),
        [⟨.busRead d.address start 1, .error code⟩, ⟨.log line, ()⟩], m.next⟩ := by
  obtain ⟨line, hl⟩ := run_read_fails m d start 1 h
  exact ⟨line, by simp [Device.readByte, hl, Except.map]⟩

end

/-! ## Single bytes, where register and direction alone decide what fails -/

section
variable (d : Device) {r : UInt8} {q : Faults}

theorem run_readByte (h : q r .read = none) (f : RegisterFile) (hosts : Nat → Bool) :
    run ⟨f, .always q, hosts⟩ (d.readByte r) =
      ⟨.ok (.ok (f.get r)), [⟨.busRead d.address r 1, .ok #v[f.get r]⟩],
        ⟨f, .always q, hosts⟩⟩ := by
  have hr : (⟨f, .always q, hosts⟩ : MemoryChip).plan 0 r .read = none := h
  simp [Device.readByte, run_read _ d r 1 hr, getAll_one]
  exact ⟨rfl, rfl, rfl⟩

theorem run_readByte_fails {code : Int} (h : q r .read = some code) (f : RegisterFile)
    (hosts : Nat → Bool) :
    ∃ line, run ⟨f, .always q, hosts⟩ (d.readByte r) =
      ⟨.ok (.error (.bus d.address r .read code)),
        [⟨.busRead d.address r 1, .error code⟩, ⟨.log line, ()⟩], ⟨f, .always q, hosts⟩⟩ := by
  have hr : (⟨f, .always q, hosts⟩ : MemoryChip).plan 0 r .read = some code := h
  obtain ⟨line, hl⟩ := run_read_fails _ d r 1 hr
  refine ⟨line, ?_⟩
  simp [Device.readByte, hl, Except.map]
  rfl

theorem run_writeByte (byte : UInt8) (h : q r .write = none) (f : RegisterFile)
    (hosts : Nat → Bool) :
    run ⟨f, .always q, hosts⟩ (d.writeByte r byte) =
      ⟨.ok (.ok ()), [⟨.busWrite d.address r [byte], .ok ()⟩],
        ⟨f.set r byte, .always q, hosts⟩⟩ := by
  have hr : (⟨f, .always q, hosts⟩ : MemoryChip).plan 0 r .write = none := h
  rw [Device.writeByte, run_write _ d r _ hr]
  rfl

theorem run_writeByte_fails (byte : UInt8) {code : Int} (h : q r .write = some code)
    (f : RegisterFile) (hosts : Nat → Bool) :
    ∃ line, run ⟨f, .always q, hosts⟩ (d.writeByte r byte) =
      ⟨.ok (.error (.bus d.address r .write code)),
        [⟨.busWrite d.address r [byte], .error code⟩, ⟨.log line, ()⟩],
        ⟨f, .always q, hosts⟩⟩ := by
  have hr : (⟨f, .always q, hosts⟩ : MemoryChip).plan 0 r .write = some code := h
  obtain ⟨line, hl⟩ := run_write_fails _ d r [byte] hr
  exact ⟨line, hl⟩

end

end MemoryChip

end Bench

end Bringup
