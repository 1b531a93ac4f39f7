import Bringup.Config.Reference
import Bringup.Proofs.ChargerProbe

/-! The registers a charger probe leaves behind, one by one. A setting that is present replaces its
own field by the code of its value. Every bit that no setting names stays as it was. -/
namespace Bringup.Charger

open Bench (Faults MemoryChip RegisterFile)
open Chip

/-! ## What each register is to hold -/

/-- A configured flag fills its field or clears it. -/
def putFlag (f : Chip.Field) (setting : Option Int32) : UInt8 → UInt8 :=
  f.put? (setting.map fun on => f.fill (on != 0))

def keyTarget (s : Settings) (byte : UInt8) : UInt8 :=
  byte
    |> Field.keyStart.put? (s.keyStart.map fun ms => PowerKey.startBits ms.toInt)
    |> Field.keyLong.put? (s.keyLong.map fun ms => PowerKey.longBits ms.toInt)
    |> putFlag Field.keyOffEnable s.keyOffEnable
    |> putFlag Field.keyOffRestart s.keyOffRestart
    |> Field.keyOff.put? (s.keyOff.map fun ms => PowerKey.offBits ms.toInt)

def offTarget (s : Settings) (byte : UInt8) : UInt8 :=
  byte
    |> Field.keyDelay.put? (s.keyDelay.map fun ms => PowerKey.delayBits ms.toInt)
    |> putFlag Field.lampFunction s.lampFunction
    |> putFlag Field.batteryDetect s.batteryDetect

/-- Either voltage setting at zero takes the hold away; a voltage without a code leaves it. Either
current setting at zero lifts the limit. -/
def vbusTarget (v : VbusSettings) (byte : UInt8) : UInt8 :=
  let held :=
    if v.voltage = 0 ∨ v.voltageEnable = 0 then Field.holdEnable.replace byte 0
    else Field.holdVoltage.put? (holdBits v.voltage.toInt) byte
  Field.vbusLimit.replace held
    (if v.current = 0 ∨ v.currentEnable = 0 then 0x03 else if v.current = 500 then 0x01 else 0x00)

/-- The configured current is for an adapter; without a usable one it is half an ampere. -/
def currentTarget (ua : Int32) (status byte : UInt8) : UInt8 :=
  byte
    |> (Field.chargeEnable.replace · (if ua = 0 then 0x00 else 0x80))
    |> (Field.chargeCurrent.replace ·
      (Current.encode (if status &&& 0x40 = 0 then 500000 else ua.toInt)))

/-- The byte that a register holds after a probe. -/
def target (s : Settings) (f : RegisterFile) (r : UInt8) : UInt8 :=
  let byte := f.get r
  let changed := decide (s.CurveDiffers f)
  if r = Register.powerKey then keyTarget s byte
  else if r = Register.offControl then offTarget s byte
  else if r = Register.chargeLamp then putFlag Field.lampType s.lampType byte
  else if r = Register.coulombCounter then
    putFlag Field.capacityCorrection s.capacityCorrection byte
  else if r = Register.charge2 then putFlag Field.batteryRegulation s.batteryRegulation byte
  else if r = Register.vbus then s.vbus?.elim byte (vbusTarget · byte)
  else if r = Register.charge3 then
    Field.adapterLimit.put? (s.adapterLimit.map fun ua => Current.encode ua.toInt) byte
  else if r = Register.charge1 then
    s.chargeCurrent.elim byte (currentTarget · (f.get Register.inputStatus) byte)
  else if r = Register.warningLevel then (warning? s).getD byte
  else if r = Register.resistanceHigh then (resistanceDue s changed f).elim byte BytePair.high
  else if r = Register.resistanceLow then (resistanceDue s changed f).elim byte BytePair.low
  else if r = Register.capacityHigh then (capacityDue s changed f).elim byte BytePair.high
  else if r = Register.capacityLow then (capacityDue s changed f).elim byte BytePair.low
  else s.curve.elim byte fun curve => curve.bytes[(r - Register.curve).toNat]?.getD byte

/-! ## The settings reach it -/

theorem codes_within {f : Chip.Field} {code : Int → UInt8} (h : ∀ n, code n &&& ~~~f.mask = 0)
    (setting : Option Int32) : ∀ b ∈ setting.map fun n => code n.toInt, b &&& ~~~f.mask = 0 := by
  intro b hb
  obtain ⟨n, -, rfl⟩ := Option.map_eq_some_iff.mp hb
  exact h n.toInt

theorem onto_isOn (p : Patch) (f : Chip.Field) (setting : Option Int32) (byte : UInt8) :
    (p.flag? f.mask (isOn setting)).onto byte = putFlag f setting (p.onto byte) := by
  rw [Patch.onto_flag?, isOn, Option.map_map]
  rfl

theorem keyPatch_onto (s : Settings) (byte : UInt8) :
    (keyPatch s).onto byte = keyTarget s byte := by
  unfold keyPatch keyTarget
  rw [Patch.onto_field? _ Field.keyOff (codes_within PowerKey.offBits_within _),
    onto_isOn, onto_isOn,
    Patch.onto_field? _ Field.keyLong (codes_within PowerKey.longBits_within _),
    Patch.onto_field? _ Field.keyStart (codes_within PowerKey.startBits_within _), Patch.onto_empty]

theorem offPatch_onto (s : Settings) (byte : UInt8) :
    putFlag Field.batteryDetect s.batteryDetect ((offPatch s).onto byte) = offTarget s byte := by
  unfold offPatch offTarget
  rw [onto_isOn, Patch.onto_field? _ Field.keyDelay (codes_within PowerKey.delayBits_within _),
    Patch.onto_empty]

theorem vbusPatch_onto (v : VbusSettings) (byte : UInt8) :
    (vbusPatch v).onto byte = vbusTarget v byte := by
  have hlimit : (configuredVbusLimit v.current v.currentEnable).code =
      if v.current = 0 ∨ v.currentEnable = 0 then 0x03
      else if v.current = 500 then 0x01 else 0x00 := by
    unfold configuredVbusLimit
    by_cases hzero : v.current = 0 ∨ v.currentEnable = 0
    · rw [if_pos hzero, if_neg (by tauto)]
      rfl
    · rw [if_neg hzero, if_pos (by tauto)]
      split <;> rfl
  have hhold : (holdPart v).onto byte =
      if v.voltage = 0 ∨ v.voltageEnable = 0 then Field.holdEnable.replace byte 0
      else Field.holdVoltage.put? (holdBits v.voltage.toInt) byte := by
    unfold holdPart
    by_cases hzero : v.voltage = 0 ∨ v.voltageEnable = 0
    · rw [if_pos hzero, if_neg (by tauto), Patch.onto_flag, Patch.onto_empty]
      rfl
    · rw [if_neg hzero, if_pos (by tauto)]
      cases hbits : holdBits v.voltage.toInt with
      | none => exact Patch.onto_empty byte
      | some bits =>
        exact (Patch.onto_field _ Field.holdVoltage (holdBits_within hbits) byte).trans
          (by rw [Patch.onto_empty]; rfl)
  unfold vbusPatch vbusTarget
  rw [Patch.onto_field _ Field.vbusLimit (VbusLimit.code_within _), hhold, hlimit]

section
variable (s : Settings) (f : RegisterFile)

theorem get_settled (r : UInt8) : (settled s f).get r =
    (settingFields.zip (revisions s (f.get Register.inputStatus))).foldl
      (fun b group => if group.1.register = r then group.2.foldl (fun b v => v.byte b) b else b)
      (f.get r) :=
  Revision.get_applyAll_flatten (revisions_within s _) f r

theorem get_settled_powerKey :
    (settled s f).get Register.powerKey = keyTarget s (f.get Register.powerKey) := by
  rw [get_settled, ← keyPatch_onto]
  rfl

theorem fold_flag (field : Chip.Field) (setting : Option Int32) (byte : UInt8) :
    (setting.toList.map (flagRevision field)).foldl (fun b v => v.byte b) byte =
      putFlag field setting byte := by
  cases setting <;> rfl

theorem get_settled_offControl :
    (settled s f).get Register.offControl = offTarget s (f.get Register.offControl) := by
  rw [get_settled, ← offPatch_onto]
  exact fold_flag Field.batteryDetect s.batteryDetect _

/-- The flags that have a register to themselves. -/
def loneFlags : List (Chip.Field × Option Int32) := [
  (Field.lampType, s.lampType), (Field.capacityCorrection, s.capacityCorrection),
  (Field.batteryRegulation, s.batteryRegulation)]

theorem get_settled_flag : ∀ x ∈ loneFlags s,
    (settled s f).get x.1.register = putFlag x.1 x.2 (f.get x.1.register) := by
  intro x hx
  rw [get_settled, ← fold_flag]
  simp only [loneFlags, List.mem_cons, List.not_mem_nil, or_false] at hx
  rcases hx with rfl | rfl | rfl <;> rfl

theorem get_settled_vbus : (settled s f).get Register.vbus =
    s.vbus?.elim (f.get Register.vbus) (vbusTarget · (f.get Register.vbus)) := by
  rw [get_settled]
  cases h : s.vbus? with
  | none =>
    simp only [revisions, h]
    rfl
  | some v =>
    rw [Option.elim_some, ← vbusPatch_onto]
    simp only [revisions, h]
    rfl

theorem get_settled_charge3 : (settled s f).get Register.charge3 =
    Field.adapterLimit.put? (s.adapterLimit.map fun ua => Current.encode ua.toInt)
      (f.get Register.charge3) := by
  rw [get_settled]
  cases h : s.adapterLimit with
  | none =>
    simp only [revisions, h]
    rfl
  | some ua =>
    simp only [revisions, h]
    rfl

theorem get_settled_charge1 : (settled s f).get Register.charge1 =
    s.chargeCurrent.elim (f.get Register.charge1)
      (currentTarget · (f.get Register.inputStatus) (f.get Register.charge1)) := by
  rw [get_settled]
  cases h : s.chargeCurrent with
  | none =>
    simp only [revisions, h]
    rfl
  | some ua =>
    have hfill : Field.chargeEnable.fill (ua != 0) = if ua = 0 then 0x00 else 0x80 := by
      by_cases hzero : ua = 0
      · rw [if_pos hzero, hzero]
        rfl
      · rw [if_neg hzero, bne_iff_ne.mpr hzero]
        rfl
    have hcurrent (status : UInt8) : chargeTarget ua status =
        if status &&& 0x40 = 0 then 500000 else ua.toInt := by
      unfold chargeTarget StatusBit.isSet
      by_cases hzero : status &&& 0x40 = 0
      · rw [if_pos hzero, if_neg (by simpa [StatusBit.adapterUsable] using hzero)]
        rfl
      · rw [if_neg hzero, if_pos (by simpa [StatusBit.adapterUsable] using hzero)]
    rw [Option.elim_some, currentTarget, ← hfill, ← hcurrent]
    simp only [revisions, h]
    rfl

theorem get_settled_warningLevel : (settled s f).get Register.warningLevel =
    (warning? s).getD (f.get Register.warningLevel) := by
  rw [get_settled]
  cases h : warning? s with
  | none =>
    simp only [revisions, h]
    rfl
  | some byte =>
    have whole : Field.warningLevel.replace (f.get Register.warningLevel) byte = byte := by
      have hmask : ~~~Field.warningLevel.mask = 0 := by decide
      rw [Chip.Field.replace, hmask, UInt8.and_zero, UInt8.zero_or]
    rw [Option.getD_some, ← whole]
    simp only [revisions, h]
    rfl

end

/-! ## The probe reaches it -/

section
variable (s : Settings) (f : RegisterFile)

/-- The registers outside of the curve that a setting or a word belongs to, with the byte that each
is to hold. -/
def targets : List (UInt8 × UInt8) :=
  let word (w : GaugeWord) := w.due s (decide (s.CurveDiffers f)) f
  [(Register.powerKey, keyTarget s (f.get Register.powerKey)),
    (Register.offControl, offTarget s (f.get Register.offControl)),
    (Register.chargeLamp, putFlag Field.lampType s.lampType (f.get Register.chargeLamp)),
    (Register.coulombCounter,
      putFlag Field.capacityCorrection s.capacityCorrection (f.get Register.coulombCounter)),
    (Register.charge2,
      putFlag Field.batteryRegulation s.batteryRegulation (f.get Register.charge2)),
    (Register.vbus, s.vbus?.elim (f.get Register.vbus) (vbusTarget · (f.get Register.vbus))),
    (Register.charge3,
      Field.adapterLimit.put? (s.adapterLimit.map fun ua => Current.encode ua.toInt)
        (f.get Register.charge3)),
    (Register.charge1, s.chargeCurrent.elim (f.get Register.charge1)
      (currentTarget · (f.get Register.inputStatus) (f.get Register.charge1))),
    (Register.warningLevel, (warning? s).getD (f.get Register.warningLevel)),
    (Register.resistanceHigh,
      (word .resistance).elim (f.get Register.resistanceHigh) BytePair.high),
    (Register.resistanceLow, (word .resistance).elim (f.get Register.resistanceLow) BytePair.low),
    (Register.capacityHigh, (word .capacity).elim (f.get Register.capacityHigh) BytePair.high),
    (Register.capacityLow, (word .capacity).elim (f.get Register.capacityLow) BytePair.low)]

theorem settings_listed : settingRegisters ⊆ (targets s f).map Prod.fst := by
  simp only [targets, List.map_cons, List.map_nil]
  decide

theorem words_listed : wordRegisters ⊆ (targets s f).map Prod.fst := by
  simp only [targets, List.map_cons, List.map_nil]
  decide

theorem target_of_mem : ∀ x ∈ targets s f, target s f x.1 = x.2 := by
  simp only [targets, List.forall_mem_cons]
  exact ⟨rfl, rfl, rfl, rfl, rfl, rfl, rfl, rfl, rfl, rfl, rfl, rfl, rfl, nofun⟩

theorem get_probed_of_mem : ∀ x ∈ targets s f, (probed .none s f).get x.1 = x.2 := by
  have flags := get_settled_flag s f
  simp only [loneFlags, List.forall_mem_cons] at flags
  obtain ⟨chargeLamp, coulombCounter, charge2, -⟩ := flags
  have setting {r byte : UInt8} (h : (settled s f).get r = byte) (hr : r ∈ settingRegisters) :
      (probed .none s f).get r = byte := (get_probed_setting s f .none hr).trans h
  have word := get_probed_due s f fun r _ => Faults.none_spares r
  simp only [targets, List.forall_mem_cons]
  exact ⟨setting (get_settled_powerKey s f) (by decide),
    setting (get_settled_offControl s f) (by decide), setting chargeLamp (by decide),
    setting coulombCounter (by decide), setting charge2 (by decide),
    setting (get_settled_vbus s f) (by decide), setting (get_settled_charge3 s f) (by decide),
    setting (get_settled_charge1 s f) (by decide),
    setting (get_settled_warningLevel s f) (by decide), (word .resistance).1, (word .resistance).2,
    (word .capacity).1, (word .capacity).2, nofun⟩

/-- Every other register is left to the curve. -/
theorem target_of_not_mem {r : UInt8} (h : r ∉ (targets s f).map Prod.fst) :
    target s f r = s.curve.elim (f.get r) fun curve =>
      curve.bytes[(r - Register.curve).toNat]?.getD (f.get r) := by
  simp only [targets, List.map_cons, List.map_nil, List.mem_cons, List.not_mem_nil, or_false,
    not_or] at h
  simp only [target, h, if_false]

theorem get_probed_of_not_mem {r : UInt8} (h : r ∉ (targets s f).map Prod.fst) :
    (probed .none s f).get r = s.curve.elim (f.get r) fun curve =>
      curve.bytes[(r - Register.curve).toNat]?.getD (f.get r) := by
  have hsetting : r ∉ settingRegisters := fun hr => h (settings_listed s f hr)
  have hword : r ∉ wordRegisters := fun hr => h (words_listed s f hr)
  rw [probed, get_withWords_of_not_mem _ _ _ hword, withCurve]
  cases s.curve with
  | none => exact get_settled_of_not_mem s f hsetting
  | some curve =>
    rw [Option.elim_some, Option.elim_some, RegisterFile.get_setAll _ _ curve.fits_file,
      get_settled_of_not_mem s f hsetting]

theorem get_probed (r : UInt8) : (probed .none s f).get r = target s f r := by
  by_cases listed : r ∈ (targets s f).map Prod.fst
  · obtain ⟨x, hx, rfl⟩ := List.mem_map.mp listed
    exact (get_probed_of_mem s f x hx).trans (target_of_mem s f x hx).symm
  · exact (get_probed_of_not_mem s f listed).trans (target_of_not_mem s f listed).symm

end

end Bringup.Charger
