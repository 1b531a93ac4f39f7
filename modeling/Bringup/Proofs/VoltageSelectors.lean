import Bringup.Proofs.VoltagesInRange

/-! A voltage is set by the selector of the highest step that does not exceed it, and each selector
of a range stands for the voltage that it sets. -/
namespace Bringup.Rail

open Bench (MemoryChip RegisterFile)
open Chip

namespace VoltageRange

/-- How many steps fit between the least voltage and the greatest. -/
def height (r : VoltageRange) : Nat := (r.greatest.toNat - r.least.toNat) / r.step.toNat

/-- Every step of the range has a selector of its own. -/
structure Selectable (r : VoltageRange) : Prop where
  step : 0 < r.step.toNat
  ordered : r.least ≤ r.greatest
  selectors : r.height ≤ 255

/-- A range that takes just the voltages in it, and rounds them down to a step. -/
structure RoundsDown (r : VoltageRange) : Prop where
  taken : ∀ mv, ∃ selector, r.encode mv = .ok selector ∧
    (selector.isSome ↔ (r.least.toNat : Int) ≤ mv.toInt ∧ mv.toInt ≤ r.greatest.toNat)
  rounded : ∀ mv selector, r.encode mv = .ok (some selector) →
    ∃ v, r.decode selector = .ok v ∧
      (v.toNat : Int) ≤ mv.toInt ∧ mv.toInt < v.toNat + r.step.toNat
  monotone : ∀ a b s t, a ≤ b → r.encode a = .ok (some s) → r.encode b = .ok (some t) → s ≤ t
  inverse : ∀ selector : UInt8, selector.toNat ≤ r.height →
    ∃ v, r.decode selector = .ok v ∧ r.encode (Int32.ofNat v.toNat) = .ok (some selector)

variable {r : VoltageRange} {a b mv : Int32} {s t : UInt8}

/-- A selector is given for voltages in range only, and says how many steps to go. -/
theorem toNat_of_encode (h : r.Selectable) (selected : r.encode mv = .ok (some s)) :
    r.Contains mv ∧ s.toNat = r.steps mv := by
  by_cases contains : r.Contains mv
  · rw [encode_inside (Nat.ne_of_gt h.step) contains] at selected
    obtain rfl := Option.some.inj (Except.ok.inj selected)
    have few : r.steps mv < 256 := by
      have highest := steps_le contains
      have selectors := h.selectors
      unfold height at selectors
      omega
    exact ⟨contains, UInt8.toNat_ofNat_of_lt' few⟩
  · rw [encode_outside contains] at selected
    cases selected

theorem decode_of_le_height (h : r.Selectable) (low : s.toNat ≤ r.height) :
    ∃ v, r.decode s = .ok v ∧ v.toNat = r.least.toNat + s.toNat * r.step.toNat ∧
      v ≤ r.greatest := by
  have ordered := UInt16.le_iff_toNat_le.mp h.ordered
  have greatest := r.greatest.toNat_lt
  have rise : s.toNat * r.step.toNat ≤ r.greatest.toNat - r.least.toNat :=
    Nat.le_trans (Nat.mul_le_mul_right _ low) (Nat.div_mul_le_self _ _)
  have fits : r.least.toNat + s.toNat * r.step.toNat < 65536 := by omega
  obtain ⟨v, decoded⟩ := decode_of_fits fits
  have value := toNat_of_decode decoded
  refine ⟨v, decoded, value, ?_⟩
  rw [UInt16.le_iff_toNat_le]
  omega

theorem encode_isSome_iff (h : r.Selectable) (mv : Int32) :
    ∃ selector, r.encode mv = .ok selector ∧ (selector.isSome ↔ r.Contains mv) := by
  by_cases contains : r.Contains mv
  · exact ⟨_, encode_inside (Nat.ne_of_gt h.step) contains, by simp [contains]⟩
  · exact ⟨_, encode_outside contains, by simp [contains]⟩

/-- A voltage loses less than a step. -/
theorem rounded_down (h : r.Selectable) (selected : r.encode mv = .ok (some s)) :
    ∃ v, r.decode s = .ok v ∧
      (v.toNat : Int) ≤ mv.toInt ∧ mv.toInt < v.toNat + r.step.toNat := by
  obtain ⟨contains, steps⟩ := toNat_of_encode h selected
  have low : s.toNat ≤ r.height := by
    rw [steps]
    exact steps_le contains
  obtain ⟨v, decoded, value, -⟩ := decode_of_le_height h low
  have below := Nat.div_mul_le_self (mv.toInt - r.least.toNat).toNat r.step.toNat
  have above := Nat.lt_div_mul_add (a := (mv.toInt - r.least.toNat).toNat) h.step
  rw [steps, VoltageRange.steps] at value
  unfold Contains at contains
  refine ⟨v, decoded, ?_, ?_⟩ <;> omega

theorem encode_mono (h : r.Selectable) (le : a ≤ b) (ha : r.encode a = .ok (some s))
    (hb : r.encode b = .ok (some t)) : s ≤ t := by
  obtain ⟨-, first⟩ := toNat_of_encode h ha
  obtain ⟨-, second⟩ := toNat_of_encode h hb
  have ordered := Int32.le_iff_toInt_le.mp le
  rw [UInt8.le_iff_toNat_le, first, second]
  exact Nat.div_le_div_right (by omega)

theorem encode_decode (h : r.Selectable) (low : s.toNat ≤ r.height) :
    ∃ v, r.decode s = .ok v ∧ r.encode (Int32.ofNat v.toNat) = .ok (some s) := by
  obtain ⟨v, decoded, value, highest⟩ := decode_of_le_height h low
  have bound := v.toNat_lt
  have same : (Int32.ofNat v.toNat).toInt = v.toNat := Int32.toInt_ofNat_of_lt (by omega)
  have contains : r.Contains (Int32.ofNat v.toNat) := by
    have greatest := UInt16.le_iff_toNat_le.mp highest
    unfold Contains
    omega
  have steps : r.steps (Int32.ofNat v.toNat) = s.toNat := by
    have rise : ((Int32.ofNat v.toNat).toInt - r.least.toNat).toNat = s.toNat * r.step.toNat := by
      omega
    rw [VoltageRange.steps, rise, Nat.mul_div_cancel _ h.step]
  refine ⟨v, decoded, ?_⟩
  rw [encode_inside (Nat.ne_of_gt h.step) contains, steps, UInt8.ofNat_toNat]

theorem Selectable.roundsDown (h : r.Selectable) : r.RoundsDown where
  taken := encode_isSome_iff h
  rounded := fun _ _ => rounded_down h
  monotone := fun _ _ _ _ => encode_mono h
  inverse := fun _ => encode_decode h

end VoltageRange

/-! ## Through the registers -/

theorem selectable (r : Rail) : r.range.Selectable := by
  cases r <;> constructor <;> decide

/-- A voltage can be set when it is in range and not otherwise, and where it was set, the rail is
read at the voltage of its selector. -/
structure ReadsBack (d : Device) (r : Rail) (mv : Int32) (m : MemoryChip) : Prop where
  settable : (∃ wrote, (m.reliable.run (r.setVoltage d mv)).outcome = .ok (.ok wrote)) ↔
    r.range.Contains mv
  read : ∀ wrote, (m.run (r.setVoltage d mv)).outcome = .ok (.ok wrote) →
    (m.run (r.setVoltage d mv)).board.plan 0 r.voltageField.register .read = none →
    ∃ selector v, r.range.encode mv = .ok (some selector) ∧ r.range.decode selector = .ok v ∧
      ((m.run (r.setVoltage d mv)).board.run (r.voltage d)).outcome = .ok (.ok v)

section
variable {d : Device} {r : Rail} {mv : Int32} {m : MemoryChip}

/-- Setting a voltage succeeds with the selector in place. -/
theorem selector_of_set {wrote : Bool} (set : (m.run (r.setVoltage d mv)).outcome = .ok (.ok wrote)) :
    r.range.encode mv = .ok (some (r.selector (m.run (r.setVoltage d mv)).board.registers)) := by
  by_cases contains : r.range.Contains mv
  · have holds : (r.voltageRevision mv).Holds (m.run (r.setVoltage d mv)).board.registers := by
      rw [setVoltage_inside contains] at set ⊢
      have run := updateRun d (r.voltageRevision mv) m
      generalize m.run (d.update (r.voltageRevision mv).field (r.voltageRevision mv).bits) = result
        at run set ⊢
      cases run with
      | unread | unwritten => cases set
      | unchanged holds => exact holds
      | written => exact (r.voltageRevision mv).holds_apply m.registers
    have steps : (r.voltageRevision mv).bits.toNat = r.range.steps mv :=
      r.range_fits _ (VoltageRange.steps_le contains)
    have selected : r.selector (m.run (r.setVoltage d mv)).board.registers =
        (r.voltageRevision mv).bits := holds
    rw [selected, VoltageRange.encode_inside r.step_ne_zero contains, ← steps, UInt8.ofNat_toNat]
  · rw [setVoltage_outside contains] at set
    cases set

theorem settable_iff : (∃ wrote, (m.reliable.run (r.setVoltage d mv)).outcome = .ok (.ok wrote)) ↔
    r.range.Contains mv := by
  constructor
  · rintro ⟨wrote, set⟩
    obtain ⟨contains, -⟩ := VoltageRange.toNat_of_encode r.selectable (selector_of_set set)
    exact contains
  · intro contains
    rw [setVoltage_inside contains]
    obtain ⟨wrote, events, run, -⟩ := run_update d (r.voltageRevision mv)
      (Bench.Faults.none_spares _) m.registers m.hosts
    exact ⟨wrote, congrArg Program.Run.outcome run⟩

theorem readsBack : ReadsBack d r mv m where
  settable := settable_iff
  read := by
    intro wrote set spared
    have selected := selector_of_set set
    obtain ⟨v, decoded, -, -⟩ := VoltageRange.rounded_down r.selectable selected
    exact ⟨_, v, selected, decoded, voltage_outcome d spared decoded⟩

end

/-- In any range whose steps have selectors of their own, a voltage in range is rounded down by less
than a step, a higher voltage never gets a lower selector, and selectors are got back from their
voltages; no other voltage has one. All rails have such ranges: a voltage that was set is read back
rounded down, whatever else the register holds. -/
theorem voltages_round_down :
    (∀ range : VoltageRange, range.Selectable → range.RoundsDown) ∧
    ∀ r : Rail, r.range.Selectable ∧ ∀ (d : Device) (mv : Int32) (m : MemoryChip),
      r.ReadsBack d mv m := by
  constructor
  · intro range h
    exact h.roundsDown
  · intro r
    exact ⟨r.selectable, fun d mv m => readsBack⟩

/-- A range that ends between two steps, and a converter whose register holds other bits as well. -/
theorem uneven_voltages_rounded :
    let range : VoltageRange := ⟨700, 1450, 100⟩
    let m : MemoryChip := ⟨RegisterFile.zero.set 0x22 0xC0, .never, fun _ => true⟩
    let set := m.run (Rail.dcdc2.setVoltage .standard 1119)
    range.Selectable ∧ range.RoundsDown ∧ range.encode 1450 = .ok (some 7) ∧
    range.decode 7 = .ok 1400 ∧ set.outcome = .ok (.ok true) ∧
    set.board.registers.get 0x22 = 0xD9 ∧
    (set.board.run (Rail.dcdc2.voltage .standard)).outcome = .ok (.ok 1100) := by
  intro range m set
  have selectable : range.Selectable := by constructor <;> decide
  have done : set.outcome = .ok (.ok true) := by decide +kernel
  have stored : set.board.registers.get 0x22 = 0xD9 := by decide +kernel
  have spared : set.board.plan 0 Rail.dcdc2.voltageField.register .read = none := by
    decide +kernel
  obtain ⟨ranges, rails⟩ := voltages_round_down
  obtain ⟨selector, v, encoded, decoded, read⟩ :=
    ((rails .dcdc2).2 .standard 1119 m).read true done spared
  have code : Rail.dcdc2.range.encode 1119 = .ok (some 25) := by decide
  have voltage : Rail.dcdc2.range.decode 25 = .ok 1100 := by decide
  rw [code] at encoded
  obtain rfl := Option.some.inj (Except.ok.inj encoded)
  rw [voltage] at decoded
  obtain rfl := Except.ok.inj decoded
  exact ⟨selectable, ranges range selectable, by decide, by decide, done, stored, read⟩

end Bringup.Rail
