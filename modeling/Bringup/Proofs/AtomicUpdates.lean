import Bringup.Charger.Operation
import Bringup.Chip.Operation
import Bringup.Pmic.Operation
import Bringup.Proofs.RailSteps

/-! Conditional updates are exact, and whatever consists of one of them is atomic: it writes once,
as the last thing that can fail. What ends in an error has changed no register. No rail and no
setting of the charger asks an update for bits outside of its field. -/
namespace Bringup

open Bench (MemoryChip RegisterFile)
open Chip

namespace Chip

variable {α β : Type}

/-! ## One update -/

/-- The update has come to an answer, and that says whether it wrote. -/
structure Updated (f : Field) (bits : UInt8) (m : MemoryChip)
    (r : Program.Run MemoryChip (Except ChipError Bool)) (wrote : Bool) : Prop where
  outcome : r.outcome = .ok (.ok wrote)
  value : r.board.registers.get f.register = (m.registers.get f.register &&& ~~~f.mask) ||| bits
  others : ∀ other, other ≠ f.register → r.board.registers.get other = m.registers.get other
  wrote_iff : wrote = true ↔ r.board.registers.get f.register ≠ m.registers.get f.register
  writes : r.writes = if wrote then [(f.register, [r.board.registers.get f.register])] else []

/-- What comes of an update whose bits lie in its field. Either a transfer failed, or the register
holds the bits, and then the same update on the chip as it is has nothing left to write. -/
inductive ExactUpdate (d : Device) (f : Field) (bits : UInt8) (m : MemoryChip) : Prop where
  | failed (e : ChipError) (outcome : (m.run (d.update f bits)).outcome = .ok (.error e))
      (bus : e.isBus = true) (met : ¬ (m.run (d.update f bits)).Unfailed)
      (registers : (m.run (d.update f bits)).board.registers = m.registers)
  | done (wrote : Bool) (updated : Updated f bits m (m.run (d.update f bits)) wrote)
      (again : ∀ n : MemoryChip, n.registers = (m.run (d.update f bits)).board.registers →
        (n.run (d.update f bits)).writes = [] ∧
        ∀ wrote, (n.run (d.update f bits)).outcome = .ok (.ok wrote) → wrote = false)

/-- A revision that holds is not written. -/
theorem update_of_holds (d : Device) {v : Revision} {m : MemoryChip} (h : v.Holds m.registers) :
    (m.run (d.update v.field v.bits)).writes = [] ∧
    ∀ wrote, (m.run (d.update v.field v.bits)).outcome = .ok (.ok wrote) → wrote = false := by
  have run := updateRun d v m
  generalize m.run (d.update v.field v.bits) = r at run ⊢
  cases run with
  | unread code line => exact ⟨rfl, nofun⟩
  | unchanged => exact ⟨rfl, fun wrote same => (Except.ok.inj (Except.ok.inj same)).symm⟩
  | unwritten holds code line => exact absurd h holds
  | written holds => exact absurd h holds

theorem exactUpdate (d : Device) (v : Revision) (m : MemoryChip) :
    ExactUpdate d v.field v.bits m := by
  have run := updateRun d v m
  have same : v.Holds m.registers ↔ v.byte (m.registers.get v.field.register) =
      m.registers.get v.field.register := (v.byte_eq_self_iff _).symm
  cases h : m.run (d.update v.field v.bits) with
  | mk outcome events board =>
  rw [h] at run
  cases run with
  | unread code line =>
    refine .failed _ (by rw [h]) rfl ?_ (by rw [h]; rfl)
    simp [h, Program.Run.Unfailed, Event.failed]
  | unchanged holds =>
    refine .done false ?_ fun n hn => update_of_holds d ?_
    · rw [h]
      exact ⟨rfl, (same.mp holds).symm, fun _ _ => rfl, by simp [MemoryChip.next], rfl⟩
    · rw [hn, h]
      exact holds
  | unwritten holds code line =>
    refine .failed _ (by rw [h]) rfl ?_ (by rw [h]; rfl)
    simp [h, Program.Run.Unfailed, Event.failed]
  | written holds =>
    refine .done true ?_ fun n hn => update_of_holds d ?_
    · rw [h]
      have stored : (v.apply m.registers).get v.field.register =
          v.byte (m.registers.get v.field.register) := by rw [v.get_apply, if_pos rfl]
      refine ⟨rfl, stored, fun other elsewhere => ?_, ?_, ?_⟩
      · exact (v.get_apply _ _).trans (if_neg (Ne.symm elsewhere))
      · rw [stored]
        exact iff_of_true rfl (mt same.mpr holds)
      · rw [stored]
        rfl
    · rw [hn, h]
      exact v.holds_apply _

/-! ## Atomic accesses -/

/-- The access comes to an end, and where that is an error, it is one of the bus, and all registers
are as they were. -/
def Atomic (p : Access α) : Prop :=
  ∀ m : MemoryChip, ∃ result, (m.run p).outcome = .ok result ∧
    ∀ e, result = .error e → e.isBus = true ∧ (m.run p).board.registers = m.registers

/-- No register is changed, whatever comes of it. -/
def Still (p : Access α) : Prop := ∀ m : MemoryChip, (m.run p).board.registers = m.registers

namespace Atomic

theorem returns (x : α) : Atomic (pure x : Access α) := fun _ => ⟨_, rfl, nofun⟩

/-- An update is atomic if its bits lie in its field. -/
theorem update (d : Device) {f : Field} {bits : UInt8} (fits : bits &&& ~~~f.mask = 0) :
    Atomic (d.update f bits) := by
  intro m
  rcases exactUpdate d ⟨f, bits, fits⟩ m with ⟨e, outcome, bus, -, registers⟩ | ⟨wrote, updated⟩
  · exact ⟨_, outcome, fun _ same => Except.error.inj same ▸ ⟨bus, registers⟩⟩
  · exact ⟨_, updated.outcome, nofun⟩

theorem assign (d : Device) (f : Field) (on : Bool) : Atomic (d.assign f on) :=
  update d (Patch.fill_within f on)

/-- What comes before may fail as well, as long as it changes nothing. -/
theorem after {p : Access β} {f : β → Access α} (first : Atomic p) (still : Still p)
    (rest : ∀ x, Atomic (f x)) : Atomic (p >>= f) := by
  intro m
  obtain ⟨result, outcome, failed⟩ := first m
  rw [MemoryChip.run_bind, Program.Run.andThen_of_ok outcome]
  cases result with
  | error e => exact ⟨.error e, rfl, fun _ same => Except.error.inj same ▸ failed e rfl⟩
  | ok x =>
    obtain ⟨result, outcome, failed⟩ := rest x (m.run p).board
    refine ⟨result, outcome, fun e same => ?_⟩
    obtain ⟨bus, kept⟩ := failed e same
    exact ⟨bus, kept.trans (still m)⟩

/-- What is done with the answer cannot fail. -/
theorem result {p : Access β} (h : Atomic p) (g : β → α) : Atomic (g <$> p) := by
  intro m
  obtain ⟨result, outcome, failed⟩ := h m
  rw [MemoryChip.run_map, outcome]
  cases result with
  | error e => exact ⟨.error e, rfl, fun _ same => Except.error.inj same ▸ failed e rfl⟩
  | ok x => exact ⟨.ok (g x), rfl, nofun⟩

theorem andReturn {p : Access β} (h : Atomic p) (x : α) :
    Atomic (p >>= fun _ => pure x) := by
  rw [← map_eq_pure_bind]
  exact h.result fun _ => x

/-- A look at the chip, and what depends on it. -/
theorem look (d : Device) (r : UInt8) {f : UInt8 → Access α} (rest : ∀ byte, Atomic (f byte)) :
    Atomic (d.readByte r >>= f) := by
  refine after ?_ ?_ rest
  · intro m
    cases h : m.plan 0 r .read with
    | none =>
      rw [m.run_readByte_next d r h]
      exact ⟨_, rfl, nofun⟩
    | some code =>
      obtain ⟨line, run⟩ := m.run_readByte_next_fails d r h
      rw [run]
      exact ⟨_, rfl, fun _ same => Except.error.inj same ▸ ⟨rfl, rfl⟩⟩
  · intro m
    obtain ⟨result, events, run⟩ := m.run_readByte_any d r
    rw [run]
    rfl

end Atomic

/-- Either the access is refused before it does anything, or it is atomic. -/
structure Guarded (refused : Prop) (p : Access α) (m : MemoryChip) : Prop where
  ends : ∃ result, (m.run p).outcome = .ok result
  kept : ∀ e, (m.run p).outcome = .ok (.error e) → (m.run p).board.registers = m.registers
  invalid_iff : (m.run p).outcome = .ok (.error .invalidInput) ↔ refused
  silent : refused → (m.run p).events = []

theorem guarded_of {refused : Prop} {p : Access α} (refuses : refused → p = throw .invalidInput)
    (atomic : ¬ refused → Atomic p) (m : MemoryChip) : Guarded refused p m := by
  by_cases h : refused
  · rw [refuses h]
    exact ⟨⟨_, rfl⟩, fun _ _ => rfl, iff_of_true rfl h, fun _ => rfl⟩
  · obtain ⟨result, outcome, failed⟩ := atomic h m
    refine ⟨⟨_, outcome⟩, fun e same => ?_, iff_of_false (fun same => ?_) h, fun refused =>
      absurd refused h⟩
    · exact (failed e (Except.ok.inj (outcome.symm.trans same))).2
    · exact Bool.false_ne_true (failed _ (Except.ok.inj (outcome.symm.trans same))).1

/-! ## Operations of one update -/

namespace Operation

/-- The operation is an update of one field. -/
def Updates : Operation → Prop
  | update .. | set _ | clear _ | assign .. => True
  | _ => False

/-- Bits outside of the field are refused. -/
def Refused : Operation → Prop
  | update field bits => bits &&& ~~~field.mask ≠ 0
  | _ => False

theorem guarded {op : Operation} (h : op.Updates) (d : Device) (m : MemoryChip) :
    Guarded op.Refused (op.perform d) m := by
  refine guarded_of (fun refused => ?_) (fun allowed => ?_) m
  · cases op with
    | update field bits =>
      have refusal : d.update field bits = throw .invalidInput := if_pos refused
      rw [perform, refusal]
      rfl
    | _ => exact absurd refused id
  · cases op with
    | update field bits => exact (Atomic.update d (not_not.mp allowed)).result Reply.wrote
    | set field =>
      have whole : field.mask &&& ~~~field.mask = 0 := by simp
      exact (Atomic.update d whole).result Reply.wrote
    | clear field =>
      have none : 0 &&& ~~~field.mask = 0 := by simp
      exact (Atomic.update d none).result Reply.wrote
    | assign field on => exact (Atomic.assign d field on).result Reply.wrote
    | _ => exact absurd h id

end Operation

end Chip

namespace Pmic.Operation

/-- The operation is an update of one field. -/
def Updates : Operation → Prop
  | setVoltage .. | setEnabled .. | setForced .. => True
  | _ => False

/-- A voltage has to be in range, and only a rail that has a mode can be forced. -/
def Refused : Operation → Prop
  | setVoltage rail mv => ¬ rail.range.Contains mv
  | setForced rail _ => rail.modeField? = none
  | _ => False

theorem guarded {op : Operation} (h : op.Updates) (d : Device) (m : MemoryChip) :
    Guarded op.Refused (op.perform d) m := by
  refine guarded_of (fun refused => ?_) (fun allowed => ?_) m
  · cases op with
    | setVoltage rail mv =>
      rw [perform, Rail.setVoltage_outside refused]
      rfl
    | setForced rail forced =>
      have refusal : rail.setForced d forced = throw .invalidInput := by
        rw [Rail.setForced, show rail.modeField? = none from refused]
      rw [perform, refusal]
      rfl
    | _ => exact absurd refused id
  · cases op with
    | setVoltage rail mv =>
      have update : Atomic (rail.setVoltage d mv) := by
        rw [Rail.setVoltage_inside (not_not.mp allowed)]
        exact .update d (rail.voltageRevision mv).fits
      exact update.result Reply.wrote
    | setEnabled rail on => exact (Atomic.assign d rail.enableField on).result Reply.wrote
    | setForced rail forced =>
      obtain ⟨f, hf⟩ := Option.ne_none_iff_exists'.mp allowed
      have update : Atomic (rail.setForced d forced) := by
        rw [Rail.setForced, hf]
        exact .assign d f forced
      exact update.result Reply.wrote
    | _ => exact absurd h id

end Pmic.Operation

namespace Charger

/-- Whether there is a host is found out without the chip. -/
theorem atomic_host (c : Charger) {α : Type} {f : Bool → Access α}
    (rest : ∀ host, Atomic (f host)) : Atomic (liftM (hostPresent c) >>= f) := by
  have found (m : MemoryChip) : ∃ host events hosts, (hostPresent c).run MemoryChip.board m =
      ⟨.ok host, events, { m with hosts }⟩ := by
    unfold hostPresent
    cases c.detection with
    | absent | assumed => exact ⟨true, [], m.hosts, rfl⟩
    | probed => exact ⟨_, _, _, rfl⟩
  refine .after (fun m => ?_) (fun m => ?_) rest
  · obtain ⟨host, events, hosts, run⟩ := found m
    rw [MemoryChip.run_liftM, run]
    exact ⟨.ok host, rfl, nofun⟩
  · obtain ⟨host, events, hosts, run⟩ := found m
    rw [MemoryChip.run_liftM, run]

theorem atomic_setChargeCurrent (ua : Nat) : Atomic (setChargeCurrent ua) := by
  have fits : Current.encode ua &&& ~~~Field.chargeCurrent.mask = 0 := Current.encode_within _
  exact (Atomic.update device fits).andReturn ()

theorem atomic_setInputLimit {source : PowerSource} (h : source ≠ .none) (ua : Nat) :
    Atomic (setInputLimit source ua) := by
  cases source with
  | none => exact absurd rfl h
  | adapter =>
    have fits : Current.encode ua &&& ~~~Field.adapterLimit.mask = 0 := Current.encode_within _
    exact (Atomic.update device fits).andReturn ()
  | usb => exact (Atomic.update device (VbusLimit.code_within _)).andReturn ()

theorem atomic_powerSource (c : Charger) : Atomic (powerSource c) := by
  have limited (limit : VbusLimit) (source : PowerSource) :
      Atomic (do let _ ← setVbusLimit limit; return source) :=
    (Atomic.update device limit.code_within).andReturn source
  refine .look device _ fun status => ?_
  split
  · exact .returns _
  · split
    · refine atomic_host c fun host => ?_
      split
      · exact limited .half .usb
      · exact limited .full .adapter
    · exact limited .half .none

namespace Operation

/-- The operation is an update of one field, or looks at the chip and then is one. -/
def Updates : Operation → Prop
  | powerSource | setChargeCurrent _ | setInputLimit .. => True
  | _ => False

/-- Where there is no source there is no limit to set. -/
def Refused : Operation → Prop
  | setInputLimit source _ => source = .none
  | _ => False

theorem guarded {op : Operation} (h : op.Updates) (c : Charger) (m : MemoryChip) :
    Guarded op.Refused (op.perform c) m := by
  refine guarded_of (fun refused => ?_) (fun allowed => ?_) m
  · cases op with
    | setInputLimit source ua =>
      obtain rfl : source = .none := refused
      rfl
    | _ => exact absurd refused id
  · cases op with
    | powerSource => exact (atomic_powerSource c).result Reply.source
    | setChargeCurrent ua => exact (atomic_setChargeCurrent ua.toNat).andReturn Reply.nothing
    | setInputLimit source ua =>
      exact (atomic_setInputLimit allowed ua.toNat).andReturn Reply.nothing
    | _ => exact absurd h id

end Operation

end Charger

/-- For every chip and whichever transfers fail: an update refuses bits outside of its field before
it looks at the chip, and is exact otherwise. Whatever consists of one update has changed no
register when it ends in an error. An invalid input is told of bits that are given outside of their
field, of a voltage out of range, of a mode that the rail does not have, and of a limit for no
source; nothing else that may be asked of a rail or of the charger ever comes to that. -/
theorem updates_exact_and_atomic (m : MemoryChip) (d : Device) :
    (∀ f bits, bits &&& ~~~f.mask ≠ 0 →
      m.run (d.update f bits) = ⟨.ok (.error .invalidInput), [], m⟩) ∧
    (∀ f bits, bits &&& ~~~f.mask = 0 → ExactUpdate d f bits m) ∧
    (∀ op : Chip.Operation, op.Updates → Guarded op.Refused (op.perform d) m) ∧
    (∀ op : Pmic.Operation, op.Updates → Guarded op.Refused (op.perform d) m) ∧
    ∀ (c : Charger) (op : Charger.Operation), op.Updates →
      Guarded op.Refused (op.perform c) m := by
  refine ⟨fun f bits outside => ?_, fun f bits fits => exactUpdate d ⟨f, bits, fits⟩ m,
    fun _ h => Chip.Operation.guarded h d m, fun _ h => Pmic.Operation.guarded h d m,
    fun c _ h => Charger.Operation.guarded h c m⟩
  rw [Device.update, if_pos outside]
  rfl

/-- A voltage that cannot be written leaves the chip alone. -/
theorem unwritten_voltage_kept :
    let m : MemoryChip := ⟨.zero, .always (.failsWrite Register.dcdc1Voltage 5), fun _ => true⟩
    let op := Pmic.Operation.setVoltage .dcdc1 3300
    op.Updates ∧ (m.run (op.perform .standard)).outcome =
      .ok (.error (.bus 0x34 Register.dcdc1Voltage .write 5)) ∧
    (m.run (op.perform .standard)).board.registers = .zero := by
  intro m op
  have failed : (m.run (op.perform .standard)).outcome =
      .ok (.error (.bus 0x34 Register.dcdc1Voltage .write 5)) := by decide +kernel
  obtain ⟨-, -, -, rails, -⟩ := updates_exact_and_atomic m .standard
  exact ⟨trivial, failed, (rails op trivial).kept _ failed⟩

end Bringup
