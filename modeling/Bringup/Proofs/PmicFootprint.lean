import Bringup.Pmic.Operation
import Bringup.Proofs.Footprint

/-! What of the chip the rails and the chip's own settings have to do with: each group and each
step of a rail has a footprint of its own, and every operation stays within one for all of them. -/
namespace Bringup

open Bench (MemoryChip)
open Chip
open Footprint (Covers)

namespace Chip.Tally

theorem count_add {a b : UInt8} (h : a.toNat + b.toNat < 256) : count a b = .ok (a + b) := by
  have hlt : a.toNat + b.toNat < UInt8.size := h
  simp only [count, Checked.byte, if_pos hlt]
  congr 1

theorem toNat_add_of_room {a b : UInt8} (h : a.toNat + b.toNat < 256) :
    (a + b).toNat = a.toNat + b.toNat := by
  rw [UInt8.toNat_add, Nat.mod_eq_of_lt h]

/-- Two passes add up as long as all their results fit into a counter. -/
theorem merge_eq {a b : Tally} (room : a.total + b.total ≤ 255) :
    a.merge b = .ok ⟨a.written + b.written, a.unchanged + b.unchanged, a.skipped + b.skipped,
      a.incomplete + b.incomplete, a.failed + b.failed⟩ := by
  unfold total at room
  unfold merge
  rw [count_add (by omega), count_add (by omega), count_add (by omega), count_add (by omega),
    count_add (by omega)]
  rfl

theorem merge_total {a b : Tally} (room : a.total + b.total ≤ 255) :
    ∃ t, a.merge b = .ok t ∧ t.total = a.total + b.total := by
  refine ⟨_, merge_eq room, ?_⟩
  unfold total at room
  simp only [total]
  rw [toNat_add_of_room (by omega), toNat_add_of_room (by omega), toNat_add_of_room (by omega),
    toNat_add_of_room (by omega), toNat_add_of_room (by omega)]
  omega

end Chip.Tally

namespace Rail

variable {a : Footprint}

/-! ## The steps of a rail -/

/-- The fields of a rail's voltage, mode and enable step. -/
def stepFields (r : Rail) : List (List Field) :=
  [[r.voltageField], r.modeField?.toList, [r.enableField]]

/-- Every rail has a step to divide by. -/
theorem encode_ends (r : Rail) (mv : Int32) : ∃ code, r.range.encode mv = .ok code := by
  have step : r.range.step.toNat ≠ 0 := by cases r <;> decide
  unfold VoltageRange.encode
  split
  · exact ⟨none, rfl⟩
  · exact ⟨_, by rw [Checked.div, if_neg step]; rfl⟩

theorem VoltageRange.decode_of_fits {range : VoltageRange} {selector : UInt8}
    (fits : range.least.toNat + selector.toNat * range.step.toNat < 65536) :
    ∃ mv, range.decode selector = .ok mv := by
  have rise : selector.toNat * range.step.toNat < 65536 := by omega
  have exact_rise : (UInt16.ofNat (selector.toNat * range.step.toNat)).toNat =
      selector.toNat * range.step.toNat := UInt16.toNat_ofNat_of_lt' rise
  unfold VoltageRange.decode
  rw [Checked.half, if_pos rise]
  change ∃ mv, Checked.half .addOverflow (range.least.toNat + UInt16.toNat _) = .ok mv
  rw [exact_rise]
  exact ⟨_, if_pos fits⟩

/-- A selector is too small for its voltage to overflow. -/
theorem decode_ends (r : Rail) (byte : UInt8) :
    ∃ mv, r.range.decode (byte &&& r.voltageField.mask) = .ok mv := by
  have selector : (byte &&& r.voltageField.mask).toNat ≤ r.voltageField.mask.toNat := by
    rw [UInt8.toNat_and]
    exact Nat.and_le_right
  have widest : r.voltageField.mask.toNat * r.range.step.toNat + r.range.least.toNat < 65536 := by
    cases r <;> decide
  have rise := Nat.mul_le_mul_right r.range.step.toNat selector
  exact VoltageRange.decode_of_fits (by omega)

theorem covers_setVoltage {r : Rail} (h : r.voltageField.Inside a.writes) (d : Device)
    (mv : Int32) : a.Covers (r.setVoltage d mv).run := by
  obtain ⟨code, hcode⟩ := r.encode_ends mv
  refine (Covers.checked hcode).lift.andThen fun code => ?_
  cases code with
  | none => exact .throws ChipError.invalidInput
  | some selector => exact .update d h _

theorem covers_voltage {r : Rail} (h : (Field.whole r.voltageField.register).Inside a.reads)
    (d : Device) : a.Covers (r.voltage d).run := by
  refine (Covers.readByte d h).andThen fun byte => ?_
  obtain ⟨mv, hmv⟩ := r.decode_ends byte
  exact (Covers.checked hmv).lift

theorem covers_setForced {r : Rail} (h : ∀ f ∈ r.modeField?, f.Inside a.writes) (d : Device)
    (forced : Bool) : a.Covers (r.setForced d forced).run := by
  unfold setForced
  cases hmode : r.modeField? with
  | none => exact .throws ChipError.invalidInput
  | some f => exact .update d (h f hmode) _

theorem covers_applyVoltage (d : Device) (r : Rail) (s : Settings) :
    (Footprint.ofFields [r.voltageField]).Covers (applyVoltage d r s).run := by
  have inside : r.voltageField.Inside [r.voltageField] := Field.inside_of_mem List.mem_cons_self
  unfold applyVoltage
  cases s.voltage with
  | none => exact .returns Outcome.skipped
  | some mv => exact (covers_setVoltage inside d mv).result Outcome.ofWritten

theorem covers_applyMode (d : Device) (r : Rail) (s : Settings) :
    (Footprint.ofFields r.modeField?.toList).Covers (applyMode d r s).run := by
  have inside : ∀ f ∈ r.modeField?, f.Inside r.modeField?.toList := fun f hf =>
    Field.inside_of_mem (Option.mem_toList.mpr hf)
  unfold applyMode
  cases s.mode with
  | none => exact .returns Outcome.skipped
  | some mode =>
    simp only
    split
    · exact (covers_setForced inside d _).result Outcome.ofWritten
    · exact .returns Outcome.skipped

theorem covers_applyEnable (d : Device) (r : Rail) (s : Settings) :
    (Footprint.ofFields [r.enableField]).Covers (applyEnable d r s).run := by
  have inside : r.enableField.Inside [r.enableField] := Field.inside_of_mem List.mem_cons_self
  unfold applyEnable
  cases s.enable with
  | none => exact .returns Outcome.skipped
  | some on => exact (Covers.update d inside _).result Outcome.ofWritten

/-- Each step of a rail keeps to its own field. -/
theorem covers_groups (d : Device) (r : Rail) (s : Settings) :
    List.Forall₂ (fun g a => Footprint.Covers a g.action.run) (groups d r s)
      (r.stepFields.map .ofFields) :=
  .cons (covers_applyVoltage d r s) <| .cons (covers_applyMode d r s) <|
    .cons (covers_applyEnable d r s) .nil

end Rail

namespace Pmic

/-! ## The groups of a probe -/

def interruptFields : List Field := interruptSetup.map fun setup => .whole setup.1

/-- Setting up the interrupts also looks at the identity of the chip. -/
def interruptFootprint : Footprint := ⟨interruptFields, [.whole Register.chipId], false⟩

def groupFootprints : List Footprint := [
  .ofFields [frequencyField], .ofFields [offVoltageField], .ofFields [.whole Register.adcControl],
  .ofFields [overheatField], interruptFootprint]

theorem covers_slots {a : Footprint} {f : Field} (h : f.Inside a.writes) (d : Device)
    (what : String) (slots : Option (List Slot)) : a.Covers (applySlots d f what slots).run := by
  unfold applySlots
  cases slots with
  | none => exact .throws _
  | some slots =>
    cases hpack : pack slots with
    | none => simp only [hpack]; exact .throws _
    | some byte => simp only [hpack]; exact (Covers.update d h byte).result Outcome.ofWritten

theorem covers_offVoltage (d : Device) (s : Settings) :
    (Footprint.ofFields [offVoltageField]).Covers (applyOffVoltage d s).run := by
  unfold applyOffVoltage
  cases s.offVoltage with
  | none => exact .returns Outcome.skipped
  | some v =>
    cases hpack : pack [⟨v, offVoltageField.mask, 0⟩] with
    | none => simp only [hpack]; exact .throws _
    | some bits =>
      simp only [hpack]
      exact (Covers.update d (by decide) bits).result Outcome.ofWritten

theorem covers_adcControl (d : Device) (s : Settings) :
    (Footprint.ofFields [.whole Register.adcControl]).Covers (applyAdcControl d s).run := by
  have all : (Field.whole Register.adcControl).Inside [.whole Register.adcControl] := by decide
  unfold applyAdcControl
  cases s.adcControl with
  | none => exact .returns Outcome.skipped
  | some v =>
    cases hpack : pack [⟨v, 0xFF, 0⟩] with
    | none => simp only [hpack]; exact .throws _
    | some bits =>
      simp only [hpack]
      exact (Covers.update d (Field.Inside.of_whole all) _).result Outcome.ofWritten

theorem covers_initChip (d : Device) : interruptFootprint.Covers (initChip d).run := by
  refine (Covers.readByte d (by decide)).andThen fun id => ?_
  refine (Covers.log _ _).lift.andThen fun _ => ?_
  refine (Covers.each fun setup hsetup => ?_).andThen fun _ => .returns id
  have mem : Field.whole setup.1 ∈ interruptFields := List.mem_map.mpr ⟨setup, hsetup, rfl⟩
  exact .writeByte d (Field.inside_of_mem mem) setup.2

theorem covers_groups (d : Device) (s : Settings) :
    List.Forall₂ (fun g a => Footprint.Covers a g.action.run) (groups d s) groupFootprints :=
  .cons (covers_slots (by decide) d _ _) <| .cons (covers_offVoltage d s) <|
    .cons (covers_adcControl d s) <| .cons (covers_slots (by decide) d _ _) <|
    .cons ((covers_initChip d).andThen fun _ => .returns Outcome.written) .nil

/-! ## The operations -/

/-- What all operations of the rails and of the chip's own settings have to do with. -/
def footprint : Footprint where
  writes := Rail.all.flatMap (·.stepFields.flatten) ++
    [frequencyField, offVoltageField, .whole Register.adcControl, overheatField] ++ interruptFields
  looks := .whole Register.chipId ::
    Rail.all.flatMap fun r => [.whole r.voltageField.register, .whole r.enableField.register]
  asks := false

theorem groups_part : ∀ a ∈ groupFootprints, a.Part footprint := by decide +kernel

theorem steps_part (r : Rail) : ∀ a ∈ r.stepFields.map Footprint.ofFields, a.Part footprint := by
  cases r <;> decide +kernel

section
variable (d : Device) (r : Rail) (s : Rail.Settings)

theorem covers_steps : ∀ g ∈ Rail.groups d r s, footprint.Covers g.action.run :=
  .of_parts (r.covers_groups d s) (steps_part r)

theorem steps_room : Tally.empty.total + (Rail.groups d r s).length ≤ 255 := by
  change 0 + 3 ≤ 255
  omega

theorem covers_rail : footprint.Covers (r.apply d s) :=
  .runGroups (covers_steps d r s) (steps_room d r s)

theorem total_of_rail {m : MemoryChip} {t : Tally}
    (h : ((r.apply d s).run MemoryChip.board m).outcome = .ok t) : t.total = 3 :=
  Tally.total_of_runGroups (steps_room d r s) h

end

/-- A rail that is configured adds its three steps to the tally. -/
theorem covers_applyConfigured (d : Device) (table : Config.Table) {tally : Tally}
    (room : tally.total + 3 ≤ 255) (r : Rail) :
    footprint.Covers (Rail.applyConfigured d table tally r) ∧
    ∀ (m : MemoryChip) (t : Tally),
      ((Rail.applyConfigured d table tally r).run MemoryChip.board m).outcome = .ok t →
        t.total ≤ tally.total + 3 := by
  unfold Rail.applyConfigured
  cases Rail.Settings.ofTable? table r.name with
  | none =>
    refine ⟨.pure tally, fun m t ht => ?_⟩
    obtain rfl := Except.ok.inj ht
    omega
  | some s =>
    constructor
    · refine (Covers.log _ _).bind fun _ _ _ => (covers_rail d r s).bind fun m steps hsteps => ?_
      have three := total_of_rail d r s hsteps
      obtain ⟨t, ht, -⟩ := Tally.merge_total (show tally.total + steps.total ≤ 255 by omega)
      exact .checked ht
    · intro m t ht
      obtain ⟨_, -, ht⟩ := Program.outcome_bind ht
      obtain ⟨steps, hsteps, ht⟩ := Program.outcome_bind ht
      have three := total_of_rail d r s hsteps
      obtain ⟨sum, hsum, htotal⟩ :=
        Tally.merge_total (show tally.total + steps.total ≤ 255 by omega)
      rw [hsum] at ht
      obtain rfl := Except.ok.inj ht
      omega

theorem covers_rails (d : Device) (table : Config.Table) :
    footprint.Covers (Rail.applyAll d table) := by
  have pass (rails : List Rail) {tally : Tally} (room : tally.total + 3 * rails.length ≤ 255) :
      footprint.Covers (rails.foldlM (Rail.applyConfigured d table) tally) := by
    induction rails generalizing tally with
    | nil => exact .pure tally
    | cons r rails ih =>
      rw [List.length_cons] at room
      have room' : tally.total + 3 ≤ 255 := by omega
      obtain ⟨hcovers, htotal⟩ := covers_applyConfigured d table room' r
      rw [List.foldlM_cons]
      refine hcovers.bind fun m t ht => ih ?_
      have := htotal m t ht
      omega
  exact pass Rail.all (by change 0 + 48 ≤ 255; omega)

theorem groups_room (d : Device) (s : Settings) :
    Tally.empty.total + (groups d s).length ≤ 255 := by
  change 0 + 5 ≤ 255
  omega

theorem covers_probe (d : Device) (s : Settings) : footprint.Covers (Pmic.probe d s) := by
  have pass : footprint.Covers (Tally.empty.runGroups (groups d s)) :=
    .runGroups (.of_parts (covers_groups d s) groups_part) (groups_room d s)
  refine pass.bind fun _ t _ => ?_
  dsimp only
  split
  · exact (Covers.log _ _).bind fun _ _ _ => .pure t
  · exact .pure t

theorem rail_reads (r : Rail) : (Field.whole r.voltageField.register).Inside footprint.reads ∧
    (Field.whole r.enableField.register).Inside footprint.reads := by
  cases r <;> decide +kernel

theorem rail_writes (r : Rail) : r.voltageField.Inside footprint.writes ∧
    r.enableField.Inside footprint.writes ∧ ∀ f ∈ r.modeField?, f.Inside footprint.writes := by
  cases r <;> decide +kernel

/-- Whatever is asked of the rails or of the chip's own settings keeps to their registers. -/
theorem covers_perform (d : Device) (op : Operation) : footprint.Covers (op.perform d).run := by
  cases op with
  | probe settings => exact (covers_probe d settings).lift.result Reply.tally
  | initChip =>
    have part : interruptFootprint.Part footprint := groups_part _ (by simp [groupFootprints])
    exact ((covers_initChip d).mono part).result fun id => Reply.number id.toNat
  | setVoltage rail mv =>
    exact (Rail.covers_setVoltage (rail_writes rail).1 d mv).result Reply.wrote
  | voltage rail =>
    exact (Rail.covers_voltage (rail_reads rail).1 d).result fun mv => Reply.number mv.toNat
  | setEnabled rail on => exact (Covers.update d (rail_writes rail).2.1 _).result Reply.wrote
  | enabled rail =>
    exact (Covers.readByte d (rail_reads rail).2).result
      (fun byte => byte &&& rail.enableField.mask != 0) |>.result Reply.enabled
  | setForced rail forced =>
    exact (Rail.covers_setForced (rail_writes rail).2.2 d forced).result Reply.wrote
  | applyRail rail settings => exact (covers_rail d rail settings).lift.result Reply.tally
  | applyRails table => exact (covers_rails d table).lift.result Reply.tally

end Pmic

end Bringup
