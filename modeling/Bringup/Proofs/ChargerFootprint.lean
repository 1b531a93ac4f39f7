import Bringup.Charger.Operation
import Bringup.Proofs.ChargerProbe
import Bringup.Proofs.Footprint

/-! What of the chip the charger has to do with: each group of a probe has a footprint of its own,
and every operation of the charger stays within one footprint for all of them. -/
namespace Bringup.Charger

open Bench (MemoryChip RegisterFile)
open Chip

/-! ## The groups of a probe -/

/-- A settings group writes its own field. What is charged with depends on the input status. -/
def settingFootprint (a : Chip.Field) : Footprint := ⟨[a], [.whole Register.inputStatus], false⟩

def curveFields : List Chip.Field :=
  (List.range Curve.size).map fun i => .whole (Register.curve + UInt8.ofNat i)

def resistanceFields : List Chip.Field :=
  [.whole Register.resistanceHigh, .whole Register.resistanceLow]

def capacityFields : List Chip.Field := [.whole Register.capacityHigh, .whole Register.capacityLow]

def statusFootprint : Footprint :=
  ⟨[], [.whole Register.inputStatus, .whole Register.chargeStatus], false⟩

section
variable {a : Footprint}

theorem covers_flag {field : Chip.Field} (h : field.Inside a.writes) (setting : Option Int32) :
    a.Covers (applyFlag field setting).run := by
  cases setting with
  | none => exact .returns Outcome.skipped
  | some on => exact (Footprint.Covers.update device h _).result Outcome.ofWritten

theorem covers_vbus (h : (Field.whole Register.vbus).Inside a.writes) (s : Settings) :
    a.Covers (applyVbus s).run := by
  unfold applyVbus
  cases s.vbus? with
  | none => exact .throws _
  | some v =>
    have hold : a.Covers (liftM (holdPatch .empty v.voltage v.voltageEnable) : Access Patch).run :=
      .quiet fun m => by
        obtain ⟨events, hrun, -⟩ := run_holdPatch v m
        exact ⟨events, hrun⟩
    exact hold.andThen fun p => .patch device _ (Field.Inside.of_whole h)

theorem covers_chargeCurrent (h : Field.chargeEnable.Inside a.writes)
    (h' : Field.chargeCurrent.Inside a.writes)
    (hs : (Field.whole Register.inputStatus).Inside a.reads) (s : Settings) :
    a.Covers (applyChargeCurrent s).run := by
  unfold applyChargeCurrent
  cases s.chargeCurrent with
  | none => exact .returns Outcome.skipped
  | some ua =>
    refine (Footprint.Covers.update device h _).andThen fun switched => ?_
    refine (Footprint.Covers.readByte device hs).andThen fun status => ?_
    exact (Footprint.Covers.update device h' _).result fun changed =>
      Outcome.ofWritten (switched || changed)

theorem covers_warning (h : Field.warningLevel.Inside a.writes) (s : Settings) :
    a.Covers (applyWarning s).run := by
  unfold applyWarning
  cases s.firstWarning with
  | none => exact .throws _
  | some first =>
    cases s.secondWarning with
    | none => exact .throws _
    | some second =>
      cases hw : warningByte first.toInt second.toInt with
      | none => simp only [hw]; exact .throws _
      | some byte =>
        simp only [hw]
        exact (Footprint.Covers.update device h byte).result Outcome.ofWritten

theorem covers_differs {bytes : List UInt8} {start : UInt8}
    (h : ∀ i < bytes.length, (Field.whole (start + UInt8.ofNat i)).Inside a.reads) :
    a.Covers (differs start bytes).run := by
  induction bytes generalizing start with
  | nil => exact .returns false
  | cons byte rest ih =>
    obtain ⟨hfirst, hnext⟩ :=
      RegisterFile.forall_block_succ (P := fun r => (Field.whole r).Inside a.reads) |>.mp h
    refine (Footprint.Covers.readByte device hfirst).andThen fun found => ?_
    split
    · exact .returns true
    · exact ih hnext

theorem covers_writeAll {bytes : List UInt8} {start : UInt8}
    (h : ∀ i < bytes.length, (Field.whole (start + UInt8.ofNat i)).Inside a.writes) :
    a.Covers (writeAll start bytes).run := by
  induction bytes generalizing start with
  | nil => exact .returns ()
  | cons byte rest ih =>
    obtain ⟨hfirst, hnext⟩ :=
      RegisterFile.forall_block_succ (P := fun r => (Field.whole r).Inside a.writes) |>.mp h
    exact (Footprint.Covers.writeByte device hfirst byte).andThen fun _ => ih hnext

theorem covers_writePair {high low : UInt8} (hhigh : (Field.whole high).Inside a.writes)
    (hlow : (Field.whole low).Inside a.writes) (pair : BytePair) :
    a.Covers (writePair high low pair).run :=
  (Footprint.Covers.writeByte device hhigh _).andThen fun _ => .writeByte device hlow _

end

theorem covers_curve (s : Settings) :
    (Footprint.ofFields curveFields).Covers (applyCurve s).run := by
  unfold applyCurve
  cases s.curve with
  | none => exact .returns Outcome.skipped
  | some curve =>
    have within : ∀ i < curve.bytes.length,
        (Field.whole (Register.curve + UInt8.ofNat i)).Inside curveFields := fun i hi =>
      Field.inside_of_mem <| List.mem_map.mpr
        ⟨i, List.mem_range.mpr (Nat.lt_of_lt_of_le hi curve.fits), rfl⟩
    have reads : ∀ i < curve.bytes.length, (Field.whole (Register.curve + UInt8.ofNat i)).Inside
        (Footprint.ofFields curveFields).reads := by
      simpa using within
    refine (covers_differs reads).andThen fun different => ?_
    split
    · refine (covers_writeAll within).andThen fun _ => ?_
      exact (Footprint.Covers.log _ _).lift.andThen fun _ => .returns Outcome.written
    · exact .returns Outcome.unchanged

/-- The registers of a word as fields. -/
def GaugeWord.fields (w : GaugeWord) : List Chip.Field := [.whole w.high, .whole w.low]

/-- A word that is not configured, or has a code, is seen to within its own registers. -/
theorem GaugeWord.covers {w : GaugeWord} {s : Settings}
    (h : ∀ value ∈ w.setting s, ∃ code, w.encode value.toInt = .ok code) (changed : Bool) :
    (Footprint.ofFields w.fields).Covers (w.apply s changed).run := by
  have high : (Field.whole w.high).Inside (Footprint.ofFields w.fields).writes :=
    Field.inside_of_mem (.head _)
  have low : (Field.whole w.low).Inside (Footprint.ofFields w.fields).writes :=
    Field.inside_of_mem (.tail _ (.head _))
  cases configured : w.setting s with
  | none =>
    rw [apply_none configured]
    exact .returns Outcome.skipped
  | some value =>
    obtain ⟨code, hcode⟩ := h value configured
    rw [apply_some configured]
    apply (Footprint.Covers.readByte device (Footprint.inside_reads _ high)).andThen
    intro shown
    split
    · refine (Footprint.Covers.checked hcode).lift.andThen fun code => ?_
      exact (covers_writePair high low _).andThen fun _ => .returns Outcome.written
    · cases w with
      | resistance => exact .returns Outcome.unchanged
      | capacity =>
        rw [orElse]
        split
        · refine (Footprint.Covers.readByte device (Footprint.inside_reads _ low)).andThen
            fun low' => ?_
          split
          · exact (covers_writePair high low _).andThen fun _ => .returns Outcome.written
          · exact .returns Outcome.unchanged
        · exact .returns Outcome.unchanged

theorem covers_resistance {s : Settings} (hs : s.Encodable) (changed : Bool) :
    (Footprint.ofFields resistanceFields).Covers (applyResistance s changed).run :=
  GaugeWord.covers (w := .resistance) hs.resistance changed

theorem covers_capacity {s : Settings} (hs : s.Encodable) (changed : Bool) :
    (Footprint.ofFields capacityFields).Covers (applyCapacity s changed).run :=
  GaugeWord.covers (w := .capacity) hs.capacity changed

theorem covers_status : statusFootprint.Covers device.reportStatus.run := by
  have report (r : StatusRegister) (byte : UInt8) : statusFootprint.Covers (r.report byte) :=
    .forM fun line _ => .log _ line
  refine (Footprint.Covers.readByte device (by decide)).andThen fun input => ?_
  refine (Footprint.Covers.readByte device (by decide)).andThen fun charge => ?_
  exact (report _ _).lift.andThen fun _ => (report _ _).lift

/-- Each settings group keeps to its own field. -/
theorem covers_groups (s : Settings) :
    List.Forall₂ (fun g a => Footprint.Covers a g.action.run) (groups s)
      (settingFields.map settingFootprint) := by
  have key : (Field.whole Register.powerKey).Inside
      (settingFootprint ⟨Register.powerKey, 0xFF⟩).writes := by decide
  refine .cons (.patch device _ (Field.Inside.of_whole key)) <|
    .cons (.patch device _ ⟨_, List.mem_singleton_self _, rfl, offPatch_mask s⟩) <|
    .cons (covers_flag (by decide) _) <| .cons (covers_flag (by decide) _) <|
    .cons (covers_flag (by decide) _) <| .cons (covers_flag (by decide) _) <|
    .cons (covers_vbus (by decide) s) <| .cons ?_ <|
    .cons (covers_chargeCurrent (by decide) (by decide) (by decide) s) <|
    .cons (covers_warning (by decide) s) .nil
  unfold applyAdapterLimit
  cases s.adapterLimit with
  | none => exact .returns Outcome.skipped
  | some ua => exact (Footprint.Covers.update device (by decide) _).result Outcome.ofWritten

/-! ## The operations -/

/-- What all operations of the charger together have to do with. -/
def footprint : Footprint where
  writes := settingFields ++ curveFields ++ resistanceFields ++ capacityFields
  looks := [
    .whole Register.inputStatus, .whole Register.chargeStatus,
    .whole Register.charge1, .whole Register.charge3,
    .whole Register.batteryVoltageHigh, .whole (Register.batteryVoltageHigh + 1),
    .whole Register.chargeCurrentHigh, .whole (Register.chargeCurrentHigh + 1),
    .whole Register.dischargeCurrentHigh, .whole (Register.dischargeCurrentHigh + 1),
    .whole Register.gauge,
    .whole Register.openVoltageHigh, .whole (Register.openVoltageHigh + 1)]
  asks := true

theorem settings_part : ∀ a ∈ settingFields.map settingFootprint, a.Part footprint := by
  decide +kernel

theorem curve_part : (Footprint.ofFields curveFields).Part footprint := by decide +kernel

theorem words_part : ∀ a ∈ [Footprint.ofFields resistanceFields, .ofFields capacityFields],
    a.Part footprint := by
  decide +kernel

theorem status_part : statusFootprint.Part footprint := by decide +kernel

/-- The words each keep to their own registers, whether or not the curve changed. -/
theorem covers_gaugeGroups {s : Settings} (hs : s.Encodable) (changed : Bool) :
    List.Forall₂ (fun g a => Footprint.Covers a g.action.run) (gaugeGroups s changed)
      [.ofFields resistanceFields, .ofFields capacityFields] :=
  .cons (covers_resistance hs changed) (.cons (covers_capacity hs changed) .nil)

theorem settings_room (s : Settings) : Tally.empty.total + (groups s).length ≤ 255 := by
  change 0 + 10 ≤ 255
  omega

theorem covers_probe {c : Charger} (hs : c.settings.Encodable) : footprint.Covers c.probe := by
  have settings := Footprint.Covers.of_parts (covers_groups c.settings) settings_part
  have words (changed : Bool) :=
    Footprint.Covers.of_parts (covers_gaugeGroups hs changed) words_part
  have room := settings_room c.settings
  -- Ten settings, the curve, two words and at most one failed report.
  rw [probe_eq]
  refine (Footprint.Covers.runGroups settings room).bind fun m t₁ ht₁ => ?_
  have total₁ : t₁.total = 10 := Tally.total_of_runGroups room ht₁
  refine ((covers_curve c.settings).mono curve_part).bind fun _ curve _ => ?_
  refine (Footprint.Covers.record (by omega) _ _).bind fun m t₂ ht₂ => ?_
  have total₂ : t₂.total = t₁.total + 1 := Tally.total_of_record (by omega) ht₂
  have room : t₂.total + (gaugeGroups c.settings (wroteCurve curve)).length ≤ 255 := by
    change t₂.total + 2 ≤ 255
    omega
  refine (Footprint.Covers.runGroups (words _) room).bind fun m t₃ ht₃ => ?_
  have total₃ : t₃.total = t₂.total + 2 := Tally.total_of_runGroups room ht₃
  refine (covers_status.mono status_part).bind fun _ result _ => ?_
  cases result with
  | ok => exact .pure t₃
  | error e => exact .record (by omega) _ _

section
open Footprint (Covers)

theorem covers_measure {high : UInt8} (hhigh : (Field.whole high).Inside footprint.reads)
    (hlow : (Field.whole (high + 1)).Inside footprint.reads) :
    footprint.Covers (measure high).run := by
  refine (Covers.readByte device hhigh).andThen fun upper => ?_
  exact (Covers.readByte device hlow).andThen fun lower => .returns (Measurement.join upper lower)

theorem covers_batteryMicrovolts : footprint.Covers Charger.batteryMicrovolts.run := by
  refine Covers.andThen (.collect fun _ _ => ?_) fun samples => .returns _
  refine (Covers.wait sampleInterval).lift.andThen fun _ => ?_
  exact (covers_measure (by decide) (by decide)).result Measurement.batteryMillivolts

theorem covers_percent : footprint.Covers Charger.percent.run :=
  (Covers.readByte device (by decide)).result (· &&& Field.percent.mask)

theorem covers_setVbusLimit (limit : VbusLimit) : footprint.Covers (setVbusLimit limit).run :=
  .update device (by decide) limit.code

/-- Finding the source may ask for a host and set the VBUS limit. -/
theorem covers_powerSource (c : Charger) : footprint.Covers (powerSource c).run := by
  have host : footprint.Covers (hostPresent c) := by
    unfold hostPresent
    cases c.detection with
    | absent | assumed => exact .pure true
    | probed => exact .detectHost rfl _
  refine (Covers.readByte device (by decide)).andThen fun status => ?_
  split
  · exact .returns PowerSource.adapter
  · split
    · refine host.lift.andThen fun present => ?_
      split
      · exact (covers_setVbusLimit .half).andThen fun _ => .returns PowerSource.usb
      · exact (covers_setVbusLimit .full).andThen fun _ => .returns PowerSource.adapter
    · exact (covers_setVbusLimit .half).andThen fun _ => .returns PowerSource.none

theorem covers_chargeCurrent_reading : footprint.Covers Charger.chargeCurrent.run :=
  (Covers.readByte device (by decide)).result Current.decode

theorem covers_inputLimit (source : PowerSource) : footprint.Covers (inputLimit source).run := by
  cases source with
  | none => exact .throws ChipError.invalidInput
  | adapter => exact (Covers.readByte device (by decide)).result Current.decode
  | usb =>
    exact (Covers.readByte device (by decide)).result fun byte => (VbusLimit.ofCode byte).microamps

theorem covers_setInputLimit (source : PowerSource) (ua : Nat) :
    footprint.Covers (setInputLimit source ua).run := by
  cases source with
  | none => exact .throws ChipError.invalidInput
  | adapter => exact (Covers.update device (by decide) _).andThen fun _ => .returns ()
  | usb => exact (covers_setVbusLimit _).andThen fun _ => .returns ()

theorem covers_report (c : Charger) : footprint.Covers (Report.collect c).run := by
  refine (covers_powerSource c).andThen fun source => ?_
  refine covers_batteryMicrovolts.andThen fun battery => ?_
  refine covers_percent.andThen fun percent => ?_
  refine covers_chargeCurrent_reading.andThen fun charge => ?_
  refine (covers_inputLimit .adapter).andThen fun adapter => ?_
  exact (covers_inputLimit .usb).andThen fun vbus => .returns _

/-- Whatever the charger is asked to do, it keeps to its own registers. -/
theorem covers_perform {c : Charger} (hs : c.settings.Encodable) (op : Operation) :
    footprint.Covers (op.perform c).run := by
  cases op with
  | probe => exact (covers_probe hs).lift.result Reply.tally
  | batteryMicrovolts => exact covers_batteryMicrovolts.result Reply.number
  | percent => exact covers_percent.result fun byte => Reply.number byte.toNat
  | openMillivolts =>
    exact (covers_measure (by decide) (by decide)).result Measurement.openMillivolts
      |>.result Reply.number
  | chargeMilliamps =>
    exact (covers_measure (by decide) (by decide)).result Measurement.chargeMilliamps
      |>.result Reply.number
  | dischargeMilliamps =>
    exact (covers_measure (by decide) (by decide)).result Measurement.dischargeMilliamps
      |>.result Reply.number
  | powerSource => exact (covers_powerSource c).result Reply.source
  | chargeCurrent => exact covers_chargeCurrent_reading.result Reply.number
  | setChargeCurrent ua =>
    have set : footprint.Covers (setChargeCurrent ua.toNat).run :=
      (Covers.update device (by decide) _).andThen fun _ => .returns ()
    exact set.andThen fun _ => .returns Reply.nothing
  | inputLimit source => exact (covers_inputLimit source).result Reply.number
  | setInputLimit source ua =>
    exact (covers_setInputLimit source ua.toNat).andThen fun _ => .returns Reply.nothing
  | report =>
    refine (covers_report c).andThen fun r => ?_
    have log : footprint.Covers r.log := .forM fun line _ => .log _ line
    exact log.lift.andThen fun _ => .returns (Reply.report r)

end

end Bringup.Charger
