import Bringup.Charger.Probe
import Bringup.Proofs.CodeWidths
import Bringup.Proofs.Update

/-! What each settings group of the charger revises. A group that is not configured, or not
configured in full, or refused, revises nothing. -/
namespace Bringup.Charger

open Bench (Faults MemoryChip RegisterFile)
open Chip

/-- Settings of a board that configures nothing. -/
def Settings.unset : Settings := .ofTable .empty

/-- A curve of two points. -/
def slope : Curve := ⟨[0x12, 0x34], by decide⟩

/-- A board that configures nothing but its battery. -/
def batteryBoard (curve : Option Curve) (mohm mah : Int32) : Charger :=
  ⟨{ Settings.unset with curve, resistance := some mohm, capacity := some mah }, .absent⟩

/-! ## The revisions of each group -/

theorem keyPatch_fits (s : Settings) : (keyPatch s).Fits :=
  Patch.fits_empty.field? _ _ |>.field? _ _ |>.flag? _ _ |>.flag? _ _ |>.field? _ _

theorem offPatch_fits (s : Settings) : (offPatch s).Fits :=
  Patch.fits_empty.field? _ _ |>.flag? _ _

/-- The hold part of the VBUS settings. A voltage without a code leaves the hold alone. -/
def holdPart (v : VbusSettings) : Patch :=
  if v.voltage ≠ 0 ∧ v.voltageEnable ≠ 0 then
    (holdBits v.voltage.toInt).elim .empty (Patch.empty.field Field.holdVoltage.mask)
  else
    Patch.empty.flag Field.holdEnable.mask false

def vbusPatch (v : VbusSettings) : Patch :=
  (holdPart v).field Field.vbusLimit.mask (configuredVbusLimit v.current v.currentEnable).code

theorem vbusPatch_fits (v : VbusSettings) : (vbusPatch v).Fits := by
  refine Patch.Fits.field ?_ _ _
  unfold holdPart
  split
  · cases holdBits v.voltage.toInt with
    | none => exact Patch.fits_empty
    | some bits => exact Patch.fits_empty.field _ _
  · exact Patch.fits_empty.flag _ _

/-- The current that is charged with, given the input status. -/
def chargeTarget (ua : Int32) (status : UInt8) : Int :=
  if StatusBit.adapterUsable.isSet status then ua.toInt else currentWithoutAdapter

def flagRevision (f : Chip.Field) (on : Int32) : Revision :=
  ⟨f, f.fill (on != 0), Patch.fill_within f _⟩

def currentRevision (register : UInt8) (ua : Int) : Revision :=
  ⟨⟨register, Current.mask⟩, Current.encode ua, Current.encode_within ua⟩

theorem warning_within (byte : UInt8) : byte &&& ~~~Field.warningLevel.mask = 0 := by
  have whole : ∀ i < 8, bit Field.warningLevel.mask i = true := by decide
  exact within_iff.mpr fun i hi _ => whole i hi

def warningRevision (byte : UInt8) : Revision := ⟨Field.warningLevel, byte, warning_within byte⟩

/-- Both warnings, if both are configured and can be stored. -/
def warning? (s : Settings) : Option UInt8 := do
  let first ← s.firstWarning
  let second ← s.secondWarning
  warningByte first.toInt second.toInt

/-- Group by group, what the settings revise while the chip shows this input status. -/
def revisions (s : Settings) (status : UInt8) : List (List Revision) := [
  [(keyPatch s).revision (keyPatch_fits s) Register.powerKey],
  [(offPatch s).revision (offPatch_fits s) Register.offControl],
  s.lampType.toList.map (flagRevision Field.lampType),
  s.capacityCorrection.toList.map (flagRevision Field.capacityCorrection),
  s.batteryRegulation.toList.map (flagRevision Field.batteryRegulation),
  s.batteryDetect.toList.map (flagRevision Field.batteryDetect),
  s.vbus?.toList.map fun v => (vbusPatch v).revision (vbusPatch_fits v) Register.vbus,
  s.adapterLimit.toList.map fun ua => currentRevision Register.charge3 ua.toInt,
  s.chargeCurrent.toList.flatMap fun ua =>
    [flagRevision Field.chargeEnable ua, currentRevision Register.charge1 (chargeTarget ua status)],
  (warning? s).toList.map warningRevision]

/-- The fields the settings groups keep to, group by group. -/
def settingFields : List Chip.Field := [
  ⟨Register.powerKey, 0xFF⟩,
  ⟨Register.offControl, Field.keyDelay.mask ||| Field.lampFunction.mask⟩,
  Field.lampType, Field.capacityCorrection, Field.batteryRegulation, Field.batteryDetect,
  ⟨Register.vbus, 0xFF⟩,
  Field.adapterLimit,
  ⟨Register.charge1, Field.chargeEnable.mask ||| Field.chargeCurrent.mask⟩,
  Field.warningLevel]

/-- The registers the settings groups work on. -/
def settingRegisters : List UInt8 := settingFields.map (·.register)

theorem settingFields_apart :
    settingFields.Pairwise fun a b => a.register = b.register → a.mask &&& b.mask = 0 := by
  decide

theorem offPatch_mask (s : Settings) :
    (offPatch s).mask &&& ~~~(Field.keyDelay.mask ||| Field.lampFunction.mask) = 0 := by
  unfold offPatch isOn
  cases s.keyDelay <;> cases s.lampFunction <;>
    simp only [Option.map, Patch.field?, Patch.flag?, Patch.flag, Patch.field, Patch.empty] <;>
    decide

theorem revisions_within (s : Settings) (status : UInt8) :
    List.Forall₂ (fun vs a => ∀ v ∈ vs, v.Within a) (revisions s status) settingFields := by
  have whole (v : Revision) : v.Within ⟨v.field.register, 0xFF⟩ := ⟨rfl, by
    change v.field.mask &&& ~~~0xFF = 0
    rw [show ~~~(0xFF : UInt8) = 0 from by decide, UInt8.and_zero]⟩
  have enable : Field.chargeEnable.mask &&&
    ~~~(Field.chargeEnable.mask ||| Field.chargeCurrent.mask) = 0 := by decide
  have current : Field.chargeCurrent.mask &&&
    ~~~(Field.chargeEnable.mask ||| Field.chargeCurrent.mask) = 0 := by decide
  have single {v : Revision} {a : Chip.Field} (h : v.Within a) : ∀ w ∈ [v], w.Within a := by simpa
  have optional (o : Option Int32) {a : Chip.Field} {v : Int32 → Revision}
      (h : ∀ on, v on |>.Within a) : ∀ w ∈ o.toList.map v, w.Within a := by
    intro w hw
    obtain ⟨on, -, rfl⟩ := List.mem_map.mp hw
    exact h on
  refine .cons (single (whole _)) <| .cons (single ⟨rfl, offPatch_mask s⟩) <|
    .cons (optional _ fun on => (flagRevision _ on).within_self) <|
    .cons (optional _ fun on => (flagRevision _ on).within_self) <|
    .cons (optional _ fun on => (flagRevision _ on).within_self) <|
    .cons (optional _ fun on => (flagRevision _ on).within_self) <| .cons ?_ <|
    .cons (optional _ fun ua => (currentRevision _ _).within_self) <| .cons ?_ <| .cons ?_ .nil
  · intro w hw
    obtain ⟨v, -, rfl⟩ := List.mem_map.mp hw
    exact whole _
  · intro w hw
    obtain ⟨ua, -, hw⟩ := List.mem_flatMap.mp hw
    rcases List.mem_pair.mp hw with rfl | rfl
    · exact ⟨rfl, enable⟩
    · exact ⟨rfl, current⟩
  · intro w hw
    obtain ⟨byte, -, rfl⟩ := List.mem_map.mp hw
    exact (warningRevision byte).within_self

/-- No group undoes what another one does. -/
theorem revisions_apart (s : Settings) (status : UInt8) :
    (revisions s status).flatten.Pairwise Revision.Apart := by
  refine Revision.pairwise_apart (revisions_within s status) settingFields_apart ?_
  have optional {α : Type} (o : Option α) (v : α → Revision) :
      (o.toList.map v).Pairwise Revision.Apart := by cases o <;> simp
  have enable_current : Field.chargeEnable.mask &&& Field.chargeCurrent.mask = 0 := by decide
  have charge : (s.chargeCurrent.toList.flatMap fun ua =>
      [flagRevision Field.chargeEnable ua,
        currentRevision Register.charge1 (chargeTarget ua status)]).Pairwise Revision.Apart := by
    cases s.chargeCurrent with
    | none => exact .nil
    | some ua => exact List.pairwise_pair.mpr fun _ => enable_current
  intro vs hvs
  simp only [revisions, List.mem_cons, List.not_mem_nil, or_false] at hvs
  rcases hvs with rfl | rfl | rfl | rfl | rfl | rfl | rfl | rfl | rfl | rfl
  · exact List.pairwise_singleton _ _
  · exact List.pairwise_singleton _ _
  all_goals first | exact optional _ _ | exact charge

/-- The settings groups stay away from a register that none of their fields lies in. -/
theorem revisions_elsewhere (s : Settings) (status : UInt8) {r : UInt8}
    (h : r ∉ settingRegisters) :
    ∀ v ∈ (revisions s status).flatten, v.field.register ≠ r := by
  intro v hv
  obtain ⟨a, ha, hwithin⟩ := Revision.exists_within (revisions_within s status) hv
  rw [hwithin.1]
  exact fun hr => h (hr ▸ List.mem_map_of_mem ha)

/-! ## The groups come to their revisions -/

section
variable {q : Faults} {hosts : Nat → Bool}

theorem brings_flag (field : Chip.Field) (setting : Option Int32) (h : q.Spares field.register)
    (f : RegisterFile) :
    Brings (applyFlag field setting) ⟨f, .always q, hosts⟩
      (setting.toList.map (flagRevision field)) := by
  cases setting with
  | none => exact .pure _ _
  | some on => exact (Brings.update device (flagRevision field on) h f hosts).map _

theorem run_holdPatch (v : VbusSettings) (m : MemoryChip) :
    ∃ events, m.run (liftM (holdPatch .empty v.voltage v.voltageEnable)) =
        ⟨.ok (.ok (holdPart v)), events, m⟩ ∧ events.filterMap Event.write? = [] := by
  unfold holdPatch holdPart
  split
  · cases holdBits v.voltage.toInt with
    | none => exact ⟨_, rfl, rfl⟩
    | some bits => exact ⟨_, rfl, rfl⟩
  · exact ⟨_, rfl, rfl⟩

theorem brings_vbus (s : Settings) (h : q.Spares Register.vbus) (f : RegisterFile) :
    Brings (applyVbus s) ⟨f, .always q, hosts⟩
      (s.vbus?.toList.map fun v => (vbusPatch v).revision (vbusPatch_fits v) Register.vbus) := by
  unfold applyVbus
  cases s.vbus? with
  | none => exact .throw _ _
  | some v =>
    obtain ⟨events, hrun, hq⟩ := run_holdPatch v ⟨f, .always q, hosts⟩
    exact .after_quiet hrun hq (.patch (vbusPatch_fits v) device h f hosts)

theorem brings_adapterLimit (s : Settings) (h : q.Spares Register.charge3) (f : RegisterFile) :
    Brings (applyAdapterLimit s) ⟨f, .always q, hosts⟩
      (s.adapterLimit.toList.map fun ua => currentRevision Register.charge3 ua.toInt) := by
  unfold applyAdapterLimit
  cases s.adapterLimit with
  | none => exact .pure _ _
  | some ua =>
    exact (Brings.update device (currentRevision Register.charge3 ua.toInt) h f hosts).map _

theorem brings_chargeCurrent (s : Settings) (h : q.Spares Register.charge1)
    (hs : q.Spares Register.inputStatus) (f : RegisterFile) :
    Brings (applyChargeCurrent s) ⟨f, .always q, hosts⟩
      (s.chargeCurrent.toList.flatMap fun ua =>
        [flagRevision Field.chargeEnable ua,
          currentRevision Register.charge1 (chargeTarget ua (f.get Register.inputStatus))]) := by
  unfold applyChargeCurrent
  cases s.chargeCurrent with
  | none => exact .pure _ _
  | some ua =>
    refine .update_bind device (flagRevision Field.chargeEnable ua) h fun switched => ?_
    have hstatus : ((flagRevision Field.chargeEnable ua).apply f).get Register.inputStatus =
        f.get Register.inputStatus := by
      rw [Revision.get_apply]
      rfl
    have hread := MemoryChip.run_readByte device (hs .read)
      ((flagRevision Field.chargeEnable ua).apply f) hosts
    rw [hstatus] at hread
    refine .after_quiet hread rfl ?_
    exact (Brings.update device (currentRevision Register.charge1 _) h _ hosts).map _

theorem brings_warning (s : Settings) (h : q.Spares Register.warningLevel) (f : RegisterFile) :
    Brings (applyWarning s) ⟨f, .always q, hosts⟩ ((warning? s).toList.map warningRevision) := by
  unfold applyWarning warning?
  cases s.firstWarning with
  | none => exact .throw _ _
  | some first =>
    cases s.secondWarning with
    | none => exact .throw _ _
    | some second =>
      simp only [Option.bind_eq_bind, Option.bind_some]
      cases warningByte first.toInt second.toInt with
      | none => exact .throw _ _
      | some byte => exact (Brings.update device (warningRevision byte) h f hosts).map _

/-- The transfers of the settings groups, and the one look at the input status. -/
def SparesSettings (q : Faults) : Prop :=
  q.Spares Register.inputStatus ∧ ∀ r ∈ settingRegisters, q.Spares r

theorem groups_bring (s : Settings) (h : SparesSettings q) (status : UInt8) :
    List.Forall₂ (fun g vs => ∀ f : RegisterFile, f.get Register.inputStatus = status →
      Brings g.action ⟨f, .always q, hosts⟩ vs) (groups s) (revisions s status) := by
  obtain ⟨hs, hq⟩ := h
  refine .cons (fun f _ => .patch (keyPatch_fits s) device (hq _ (by decide)) f hosts) <|
    .cons (fun f _ => .patch (offPatch_fits s) device (hq _ (by decide)) f hosts) <|
    .cons (fun f _ => brings_flag _ _ (hq _ (by decide)) f) <|
    .cons (fun f _ => brings_flag _ _ (hq _ (by decide)) f) <|
    .cons (fun f _ => brings_flag _ _ (hq _ (by decide)) f) <|
    .cons (fun f _ => brings_flag _ _ (hq _ (by decide)) f) <|
    .cons (fun f _ => brings_vbus s (hq _ (by decide)) f) <|
    .cons (fun f _ => brings_adapterLimit s (hq _ (by decide)) f) <|
    .cons (fun f hf => hf ▸ brings_chargeCurrent s (hq _ (by decide)) hs f) <|
    .cons (fun f _ => brings_warning s (hq _ (by decide)) f) .nil

/-- The settings groups end without a fault, and their revisions are all that they do. -/
theorem settings_pass (s : Settings) (h : SparesSettings q) (f : RegisterFile)
    (hosts : Nat → Bool) :
    ∃ results writes, Passes (groups s) ⟨f, .always q, hosts⟩ results writes
        ⟨Revision.applyAll (revisions s (f.get Register.inputStatus)).flatten f, .always q, hosts⟩ ∧
      ((∀ v ∈ (revisions s (f.get Register.inputStatus)).flatten, v.Holds f) → writes = []) := by
  refine Passes.of_brings (groups_bring s h _) ?_ rfl
  intro v hv g hg
  have away := revisions_elsewhere s _ (r := Register.inputStatus) (by decide) v hv
  rw [Revision.get_apply, if_neg away, hg]

end

end Bringup.Charger
