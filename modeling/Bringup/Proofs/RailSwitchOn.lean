import Bringup.Proofs.Moments
import Bringup.Proofs.RailSteps

/-! The moment at which a rail is switched on. Its steps are taken whatever became of the ones
before, so at that moment the rail is at the configured voltage only if it was there already or if
the voltage step went well. -/
namespace Bringup.Rail

open Bench (MemoryChip RegisterFile)
open Bench.RegisterFile (AgreeOn)
open Chip

/-- The rail's enable bit is set. -/
def On (r : Rail) (f : RegisterFile) : Prop :=
  f.get r.enableField.register &&& r.enableField.mask ≠ 0

instance (r : Rail) (f : RegisterFile) : Decidable (r.On f) := inferInstanceAs (Decidable (_ ≠ _))

/-- The event finds the rail off and leaves it on. -/
def TurnsOn (r : Rail) (f : RegisterFile) (e : Event) : Prop := ¬ r.On f ∧ r.On (e.after f)

instance (r : Rail) (f : RegisterFile) (e : Event) : Decidable (r.TurnsOn f e) :=
  inferInstanceAs (Decidable (_ ∧ _))

variable {r : Rail} {f g : RegisterFile}

theorem on_congr (h : AgreeOn [r.enableField] f g) : r.On f ↔ r.On g := by
  rw [On, On, h r.enableField List.mem_cons_self]

theorem setTo_congr (h : AgreeOn [r.voltageField] f g) (mv : Int32) :
    r.SetTo mv f ↔ r.SetTo mv g := by
  rw [SetTo, SetTo, h r.voltageField List.mem_cons_self]

/-- What leaves the enable bit alone does not switch the rail on. -/
theorem not_turnsOn {e : Event} (h : AgreeOn [r.enableField] f (e.after f)) : ¬ r.TurnsOn f e :=
  fun turns => turns.1 ((on_congr h).mpr turns.2)

namespace Step

/-- The moments of a step are those of its update. -/
theorem throughout (d : Device) (r : Rail) (s : Settings) (k : Step) (m : MemoryChip)
    {ok : RegisterFile → Event → Prop} (still : ∀ e f, e.after f = f → ok f e)
    (moved : ∀ v ∈ k.revisions r s, ∀ e, e.after m.registers = v.apply m.registers →
      ok m.registers e) : Throughout ok m.registers (m.run (k.action d r s)).transfers := by
  apply Throughout.transfers
  obtain ⟨-, result, hrun⟩ | ⟨v, revised, update⟩ := k.action_cases d r s
  · rw [hrun]
    trivial
  · rw [update, MemoryChip.run_map]
    refine throughout_update d v m still (moved v ?_)
    rw [revised]
    exact List.mem_cons_self

/-- The registers that a step leaves are those after its transfers. -/
theorem registers_eq (d : Device) (r : Rail) (s : Settings) (k : Step) (m : MemoryChip) :
    replay m.registers (m.run (k.action d r s)).transfers =
      (m.run (k.action d r s)).board.registers := by
  rw [Program.Run.transfers, replay_transfers]
  exact (Program.run_registers _ m).symm

/-- The steps before the last do not switch the rail on. -/
theorem revision_spares_enable {k : Step} (h : k ≠ enable) {s : Settings} {v : Revision}
    (hv : v ∈ k.revisions r s) (f : RegisterFile) : AgreeOn [r.enableField] f (v.apply f) := by
  have apart : ∀ a ∈ k.fields r, ∀ b ∈ [r.enableField], a.Apart b := by
    obtain ⟨voltage_apart, rest⟩ := List.pairwise_cons.mp (fields_apart r)
    obtain ⟨mode_apart, -⟩ := List.pairwise_cons.mp rest
    cases k with
    | voltage => exact voltage_apart enable (by decide)
    | mode => exact mode_apart enable (by decide)
    | enable => exact absurd rfl h
  exact (RegisterFile.agreeOutside_apply (k.revisions_own r s v hv) f).agreeOn apart

end Step

/-- The mode step leaves the voltage alone. -/
theorem mode_spares_voltage (d : Device) (r : Rail) (s : Settings) (m : MemoryChip) :
    AgreeOn [r.voltageField] m.registers (m.run (applyMode d r s)).board.registers := by
  have apart : ∀ a ∈ r.modeField?.toList, ∀ b ∈ [r.voltageField], a.Apart b := by
    obtain ⟨voltage_apart, -⟩ := List.pairwise_cons.mp (Step.fields_apart r)
    exact fun a ha b hb => (voltage_apart .mode (by decide) b hb a ha).symm
  exact ((r.covers_applyMode d s).spares m).registers.agreeOn apart

/-- After the voltage step the rail is at its voltage if it was before, or if the voltage is in
range and no transfer of the step failed. -/
theorem setTo_after_voltage_iff (d : Device) (r : Rail) {s : Settings} {mv : Int32}
    (h : s.voltage = some mv) (m : MemoryChip) :
    r.SetTo mv (m.run (applyVoltage d r s)).board.registers ↔
      r.SetTo mv m.registers ∨
        r.range.Contains mv ∧ (m.run (applyVoltage d r s)).Unfailed := by
  by_cases inside : r.range.Contains mv
  · have update : applyVoltage d r s = Outcome.ofWritten <$>
        d.update (r.voltageRevision mv).field (r.voltageRevision mv).bits := by
      rw [applyVoltage, h, ← setVoltage_inside inside]
      rfl
    have unfailed := holds_update_iff d (r.voltageRevision mv) m
    rw [setTo_iff inside, setTo_iff inside, and_iff_right inside, update, MemoryChip.run_map]
    exact unfailed
  · have never (f : RegisterFile) : ¬ r.SetTo mv f := fun set => inside set.1
    simp [never, inside]

/-- The chip as the last step of a rail finds it. -/
def beforeEnable (d : Device) (r : Rail) (s : Settings) (m : MemoryChip) : MemoryChip :=
  ((m.run (applyVoltage d r s)).board.run (applyMode d r s)).board

/-- The steps are taken one after another, whatever becomes of them. -/
theorem apply_through (d : Device) (r : Rail) (s : Settings) (m : MemoryChip) :
    GoesThrough (r.apply d s) (groups d r s) m :=
  .runGroups (Pmic.covers_steps d r s) (Pmic.steps_room d r s) m

theorem throughout_apply (d : Device) (r : Rail) (s : Settings) (m : MemoryChip)
    {ok : RegisterFile → Event → Prop}
    (early : ∀ k : Step, k ≠ .enable → ∀ n : MemoryChip,
      Throughout ok n.registers (n.run (k.action d r s)).transfers)
    (late : Throughout ok (beforeEnable d r s m).registers
      ((beforeEnable d r s m).run (applyEnable d r s)).transfers) :
    Throughout ok m.registers ((r.apply d s).run MemoryChip.board m).transfers := by
  let n := (m.run (applyVoltage d r s)).board
  have transfers : ((r.apply d s).run MemoryChip.board m).transfers =
      (m.run (applyVoltage d r s)).transfers ++ ((n.run (applyMode d r s)).transfers ++
        (((beforeEnable d r s m).run (applyEnable d r s)).transfers ++ [])) :=
    (apply_through d r s m).transfers
  rw [transfers, List.append_nil]
  apply (early .voltage (by decide) m).append
  rw [Step.voltage.registers_eq d r s m]
  apply (early .mode (by decide) n).append
  rw [Step.mode.registers_eq d r s n]
  exact late

/-- Whatever fails on the bus, the steps of a rail are all taken; and at the moment the rail is
switched on it is at the configured voltage exactly if it was there from the start, or if the
voltage is in range and the transfers of the voltage step went through. -/
theorem switched_on_set_iff (d : Device) (r : Rail) {s : Settings} {mv : Int32}
    (h : s.voltage = some mv) (m : MemoryChip) :
    (∃ tally, ((r.apply d s).run MemoryChip.board m).outcome = .ok tally) ∧
    Throughout (fun f e => r.TurnsOn f e →
        (r.SetTo mv f ↔ r.SetTo mv m.registers ∨
          r.range.Contains mv ∧ (m.run (applyVoltage d r s)).Unfailed))
      m.registers ((r.apply d s).run MemoryChip.board m).transfers := by
  have stays {e : Event} {f : RegisterFile} (same : e.after f = f) : ¬ r.TurnsOn f e :=
    not_turnsOn (by rw [same]; exact .refl _ f)
  refine ⟨(apply_through d r s m).ends, throughout_apply d r s m ?_ ?_⟩
  · intro k hk n
    apply k.throughout d r s n
    · intro e f same turns
      exact absurd turns (stays same)
    · intro v hv e moved turns
      have spared := Step.revision_spares_enable hk hv n.registers
      rw [← moved] at spared
      exact absurd turns (not_turnsOn spared)
  · apply Step.enable.throughout d r s (beforeEnable d r s m)
    · intro e f same turns
      exact absurd turns (stays same)
    · intro v _ e _ _
      have mode := mode_spares_voltage d r s (m.run (applyVoltage d r s)).board
      rw [← setTo_after_voltage_iff d r h m]
      exact (setTo_congr mode mv).symm

/-- Settings that switch a converter on and find it off, on a bus that lets the voltage through. -/
theorem converter_switched_on_set :
    let s : Settings := ⟨some 3300, some 1, none⟩
    let m : MemoryChip := ⟨.zero, .never, fun _ => true⟩
    let transfers := ((dcdc1.apply .standard s).run MemoryChip.board m).transfers
    s.voltage = some 3300 ∧
    ¬ Throughout (fun f e => ¬ dcdc1.TurnsOn f e) m.registers transfers ∧
    Throughout (fun f e => dcdc1.TurnsOn f e → dcdc1.SetTo 3300 f) m.registers transfers := by
  intro s m transfers
  have unfailed : (m.run (applyVoltage .standard dcdc1 s)).Unfailed := by
    unfold Program.Run.Unfailed
    decide +kernel
  refine ⟨rfl, by decide +kernel, ?_⟩
  exact (switched_on_set_iff .standard dcdc1 (s := s) rfl m).2.imp fun f e set turns =>
    (set turns).mpr (.inr ⟨by decide, unfailed⟩)

/-- A voltage out of range is refused, and the converter is switched on at the voltage it had. -/
theorem refused_voltage_switched_on :
    let s : Settings := ⟨some 5000, some 1, none⟩
    let m : MemoryChip := ⟨.zero, .never, fun _ => true⟩
    ¬ Throughout (fun f e => dcdc1.TurnsOn f e → dcdc1.SetTo 5000 f) m.registers
      ((dcdc1.apply .standard s).run MemoryChip.board m).transfers := by
  decide +kernel

end Bringup.Rail
