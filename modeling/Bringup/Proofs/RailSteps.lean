import Bringup.Proofs.PassFailures

/-! A rail's settings as revisions of its fields. A voltage in range becomes the selector of its
step; a voltage out of range, and a mode of a rail that has none, revise nothing. -/
namespace Bringup

open Bench (Faults MemoryChip RegisterFile)
open Bench.RegisterFile (AgreeOn)
open Chip
open Charger (flagRevision)

/-- On a bus that lets them through, groups come to the revisions that each of them brings. -/
theorem Chip.afterGroups_of_brings {gs : List Group} {vss : List (List Revision)} {q : Faults}
    {hosts : Nat → Bool}
    (h : List.Forall₂ (fun g vs => ∀ f, Brings g.action ⟨f, .always q, hosts⟩ vs) gs vss)
    (f : RegisterFile) :
    afterGroups gs ⟨f, .always q, hosts⟩ =
      ⟨Revision.applyAll vss.flatten f, .always q, hosts⟩ := by
  induction h generalizing f with
  | nil => rfl
  | cons hg _ ih => rw [afterGroups, (hg f).board, ih, List.flatten_cons, Revision.applyAll_append]

namespace Rail

/-! ## Voltages -/

namespace VoltageRange

/-- The voltage is one a rail can be set to. -/
def Contains (r : VoltageRange) (mv : Int32) : Prop :=
  r.least.toNat ≤ mv.toInt ∧ mv.toInt ≤ r.greatest.toNat

instance (r : VoltageRange) (mv : Int32) : Decidable (r.Contains mv) :=
  inferInstanceAs (Decidable (_ ∧ _))

/-- How many whole steps a voltage lies above the least. -/
def steps (r : VoltageRange) (mv : Int32) : Nat :=
  (mv.toInt - r.least.toNat).toNat / r.step.toNat

theorem encode_inside {r : VoltageRange} {mv : Int32} (step : r.step.toNat ≠ 0)
    (h : r.Contains mv) : r.encode mv = .ok (some (UInt8.ofNat (r.steps mv))) := by
  unfold Contains at h
  rw [encode, if_neg (by omega), Checked.div, if_neg step]
  rfl

theorem encode_outside {r : VoltageRange} {mv : Int32} (h : ¬ r.Contains mv) :
    r.encode mv = .ok none := by
  unfold Contains at h
  rw [encode, if_pos (by omega)]
  rfl

theorem steps_eq {r : VoltageRange} {mv : Int32} (h : r.Contains mv) :
    (r.steps mv : Int) = (mv.toInt - r.least.toNat) / r.step.toNat := by
  unfold Contains at h
  rw [steps, Int.natCast_ediv, Int.toNat_of_nonneg (by omega)]

theorem steps_le {r : VoltageRange} {mv : Int32} (h : r.Contains mv) :
    r.steps mv ≤ (r.greatest.toNat - r.least.toNat) / r.step.toNat := by
  unfold Contains at h
  exact Nat.div_le_div_right (by omega)

end VoltageRange

/-- The field that selects the rail's voltage is at the step of this one, which is in range. -/
def SetTo (r : Rail) (mv : Int32) (f : RegisterFile) : Prop :=
  r.range.Contains mv ∧
  ((f.get r.voltageField.register &&& r.voltageField.mask).toNat : Int) =
    (mv.toInt - r.range.least.toNat) / r.range.step.toNat

instance (r : Rail) (mv : Int32) (f : RegisterFile) : Decidable (r.SetTo mv f) :=
  inferInstanceAs (Decidable (_ ∧ _))

theorem step_ne_zero (r : Rail) : r.range.step.toNat ≠ 0 := by cases r <;> decide

/-- No range has more steps than its field has selectors. -/
theorem range_fits (r : Rail) : ∀ n ≤ (r.range.greatest.toNat - r.range.least.toNat) /
    r.range.step.toNat, (UInt8.ofNat n &&& r.voltageField.mask).toNat = n := by
  cases r <;> decide +kernel

/-- The rail's voltage field at the selector of a voltage. -/
def voltageRevision (r : Rail) (mv : Int32) : Revision where
  field := r.voltageField
  bits := UInt8.ofNat (r.range.steps mv) &&& r.voltageField.mask
  fits := by rw [UInt8.and_assoc]; simp

theorem setTo_iff {r : Rail} {mv : Int32} (h : r.range.Contains mv) (f : RegisterFile) :
    r.SetTo mv f ↔ (r.voltageRevision mv).Holds f := by
  have selector : (r.voltageRevision mv).bits.toNat = r.range.steps mv :=
    r.range_fits _ (VoltageRange.steps_le h)
  rw [SetTo, and_iff_right h, ← VoltageRange.steps_eq h, Int.natCast_inj, ← selector,
    UInt8.toNat_inj]
  rfl

theorem setVoltage_inside {r : Rail} {mv : Int32} (h : r.range.Contains mv) (d : Device) :
    r.setVoltage d mv =
      d.update (r.voltageRevision mv).field (r.voltageRevision mv).bits := by
  rw [setVoltage, VoltageRange.encode_inside r.step_ne_zero h]
  rfl

theorem setVoltage_outside {r : Rail} {mv : Int32} (h : ¬ r.range.Contains mv) (d : Device) :
    r.setVoltage d mv = throw .invalidInput := by
  rw [setVoltage, VoltageRange.encode_outside h]
  rfl

/-! ## Steps -/

/-- The steps that apply a rail's settings. -/
inductive Step where
  | voltage
  | mode
  | enable
  deriving DecidableEq, Repr

namespace Step

/-- In the order they are taken. -/
def all : List Step := [voltage, mode, enable]

theorem mem_all (k : Step) : k ∈ all := by cases k <;> decide

def action (d : Device) (r : Rail) (s : Settings) : Step → Access Outcome
  | voltage => applyVoltage d r s
  | mode => applyMode d r s
  | enable => applyEnable d r s

def fields (r : Rail) : Step → List Field
  | voltage => [r.voltageField]
  | mode => r.modeField?.toList
  | enable => [r.enableField]

def revisions (r : Rail) (s : Settings) : Step → List Revision
  | voltage => (s.voltage.filter fun mv => r.range.Contains mv).toList.map r.voltageRevision
  | mode => r.modeField?.toList.flatMap fun f => s.mode.toList.map (flagRevision f)
  | enable => s.enable.toList.map (flagRevision r.enableField)

theorem revisions_own (r : Rail) (s : Settings) (k : Step) :
    ∀ v ∈ k.revisions r s, v.field.Inside (k.fields r) := by
  intro v hv
  apply Field.inside_of_mem
  cases k with
  | voltage =>
    obtain ⟨mv, -, rfl⟩ := List.mem_map.mp hv
    exact List.mem_cons_self
  | mode =>
    obtain ⟨f, hf, hv⟩ := List.mem_flatMap.mp hv
    obtain ⟨mode, -, rfl⟩ := List.mem_map.mp hv
    exact hf
  | enable =>
    obtain ⟨on, -, rfl⟩ := List.mem_map.mp hv
    exact List.mem_cons_self

/-- No step of a rail touches a bit of another. -/
theorem fields_apart (r : Rail) :
    all.Pairwise fun k l => ∀ a ∈ fields r k, ∀ b ∈ fields r l, a.Apart b := by
  cases r <;> decide +kernel

/-- A step makes one conditional update, or there is nothing for it to do. -/
theorem action_cases (d : Device) (r : Rail) (s : Settings) (k : Step) :
    (k.revisions r s = [] ∧
      ∃ result, ∀ m : MemoryChip, m.run (k.action d r s) = ⟨.ok result, [], m⟩) ∨
    ∃ v, k.revisions r s = [v] ∧
      k.action d r s = Outcome.ofWritten <$> d.update v.field v.bits := by
  cases k with
  | voltage =>
    unfold action revisions applyVoltage
    cases s.voltage with
    | none => exact .inl ⟨rfl, .ok .skipped, fun _ => rfl⟩
    | some mv =>
      by_cases h : r.range.Contains mv
      · refine .inr ⟨r.voltageRevision mv, by simp [h], ?_⟩
        simp only [setVoltage_inside h]
        rfl
      · refine .inl ⟨by simp [h], .error .invalidInput, fun m => ?_⟩
        simp only [setVoltage_outside h]
        rfl
  | mode =>
    unfold action revisions applyMode setForced
    cases s.mode with
    | none => exact .inl ⟨by simp, .ok .skipped, fun _ => rfl⟩
    | some mode =>
      cases r.modeField? with
      | none => exact .inl ⟨rfl, .ok .skipped, fun _ => rfl⟩
      | some a => exact .inr ⟨flagRevision a mode, rfl, rfl⟩
  | enable =>
    unfold action revisions applyEnable
    cases s.enable with
    | none => exact .inl ⟨rfl, .ok .skipped, fun _ => rfl⟩
    | some on => exact .inr ⟨flagRevision r.enableField on, rfl, rfl⟩

theorem brings (d : Device) (r : Rail) (s : Settings) (k : Step) (f : RegisterFile)
    (hosts : Nat → Bool) : Brings (k.action d r s) ⟨f, .never, hosts⟩ (k.revisions r s) := by
  obtain ⟨none_revised, result, hrun⟩ | ⟨v, revised, update⟩ := k.action_cases d r s
  · rw [none_revised]
    exact .of_run_eq (hrun _) fun _ => rfl
  · rw [revised, update]
    exact (Brings.update d v (Faults.none_spares _) f hosts).map Outcome.ofWritten

end Step

/-- All that the settings of a rail revise. -/
def revisions (r : Rail) (s : Settings) : List Revision := Step.all.flatMap (Step.revisions r s)

theorem revisions_own (r : Rail) (s : Settings) :
    ∀ v ∈ r.revisions s, v.field.Inside r.stepFields.flatten :=
  RegisterFile.inside_flatMap (Step.revisions_own r s)

theorem mem_all (r : Rail) : r ∈ all := by cases r <;> decide

/-- No rail touches a bit of another. -/
theorem rails_apart : all.Pairwise fun r q =>
    ∀ a ∈ r.stepFields.flatten, ∀ b ∈ q.stepFields.flatten, a.Apart b := by
  decide +kernel

/-- What becomes of the fields of one step is up to that step. -/
theorem agreeOn_step (r : Rail) (s : Settings) (k : Step) (f : RegisterFile) :
    AgreeOn (k.fields r) (Revision.applyAll (k.revisions r s) f)
      (Revision.applyAll (r.revisions s) f) :=
  RegisterFile.agreeOn_applyAll_flatMap (Step.revisions_own r s) (Step.fields_apart r) f k.mem_all

/-- Without failures, applying the settings of a rail comes to their revisions. -/
theorem afterGroups_rail (d : Device) (r : Rail) (s : Settings) (f : RegisterFile)
    (hosts : Nat → Bool) :
    afterGroups (groups d r s) ⟨f, .never, hosts⟩ =
      ⟨Revision.applyAll (r.revisions s) f, .never, hosts⟩ := by
  have steps : List.Forall₂ (fun g vs => ∀ f, Brings g.action ⟨f, .never, hosts⟩ vs) (groups d r s)
      (Step.all.map (Step.revisions r s)) :=
    .cons (Step.voltage.brings d r s · hosts) <| .cons (Step.mode.brings d r s · hosts) <|
      .cons (Step.enable.brings d r s · hosts) .nil
  exact afterGroups_of_brings steps f

end Rail

end Bringup
