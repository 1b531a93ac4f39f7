import Bringup.Proofs.ChargerProbe

/-! A probe of a chip that was probed before, once the gauge has measured its resistance. Every
condition a group writes on is gone by then, with one exception: a capacity of zero, when the curve
was written anew, is first stored with its valid bit and only cleared by the next probe. -/
namespace Bringup.Charger

open Bench (Faults MemoryChip RegisterFile)
open Chip

/-- The gauge has measured the resistance of its battery. -/
def calibrate (f : RegisterFile) : RegisterFile :=
  f.set Register.resistanceHigh (f.get Register.resistanceHigh ||| Resistance.calibrated)

theorem get_calibrate_of_ne (f : RegisterFile) {r : UInt8} (h : Register.resistanceHigh ≠ r) :
    (calibrate f).get r = f.get r :=
  RegisterFile.get_set_of_ne f _ h

/-- The chip as the boot after a probe finds it. -/
def nextBoot (c : Charger) (m : MemoryChip) : MemoryChip :=
  let probed := (c.probe.run MemoryChip.board m).board
  { probed with registers := calibrate probed.registers }

section
variable (s : Settings) (f : RegisterFile)

/-- Neither the gauge's own registers nor the input status are among the settings. -/
theorem get_calibrate_probed_setting {r : UInt8} (h : r ∈ settingRegisters) :
    (calibrate (probed .none s f)).get r = (settled s f).get r := by
  have hne : Register.resistanceHigh ≠ r := by
    rintro rfl
    exact absurd h (by decide)
  rw [get_calibrate_of_ne _ hne, get_probed_setting s f .none h]

/-- After a probe every setting is in its place. -/
theorem settled_calibrate_probed : Settled s (calibrate (probed .none s f)) := by
  have hstatus : (calibrate (probed .none s f)).get Register.inputStatus =
      f.get Register.inputStatus := by
    rw [get_calibrate_of_ne _ (by decide), probed, get_withWords_of_not_mem _ _ _ (by decide),
      get_withCurve_of_le _ _ (by decide), get_settled_of_not_mem _ _ (by decide)]
  intro v hv
  rw [hstatus] at hv
  obtain ⟨a, ha, hwithin⟩ := Revision.exists_within (revisions_within s _) hv
  have hregister : v.field.register ∈ settingRegisters := by
    rw [hwithin.1]
    exact List.mem_map_of_mem ha
  have hholds : v.Holds (settled s f) := Revision.holds_applyAll (revisions_apart s _) f v hv
  exact hholds.congr (get_calibrate_probed_setting s f hregister)

/-- Nor does the curve differ. -/
theorem not_differs_calibrate_probed : ¬ s.CurveDiffers (calibrate (probed .none s f)) := by
  have hne : ∀ i < Curve.size, Register.resistanceHigh ≠ Register.curve + UInt8.ofNat i := by
    decide
  rw [curveDiffers_congr fun i hi => get_calibrate_of_ne _ (hne i hi)]
  exact not_differs_probed .none s f

/-- A resistance that the gauge measured itself is left alone. -/
theorem resistanceDue_calibrate (g : RegisterFile) :
    resistanceDue s false (calibrate g) = none := by
  have hset : (calibrate g).get Register.resistanceHigh &&& Resistance.calibrated ≠ 0 := by
    rw [calibrate, RegisterFile.get_set_self, or_and_self]
    decide
  unfold resistanceDue
  cases s.resistance with
  | none => rfl
  | some mohm => exact if_neg (by simp [hset])

end

section
variable {s : Settings} {changed : Bool} {f g : RegisterFile}

/-- A zero that the first probe stored carries the valid bit, and a second one clears it. -/
theorem capacityDue_again_zero (hc : s.capacity = some 0)
    (hhigh : g.get Register.capacityHigh =
      (capacityDue s changed f).elim (f.get Register.capacityHigh) BytePair.high)
    (hlow : g.get Register.capacityLow =
      (capacityDue s changed f).elim (f.get Register.capacityLow) BytePair.low) :
    capacityDue s false g = if changed = true then some ⟨0, 0⟩ else none := by
  rw [capacityDue_zero hc]
  cases changed with
  | true =>
    have hcode : Capacity.encode (0 : Int32).toInt = .ok 0 := by decide
    have hvalid : g.get Register.capacityHigh ≠ 0 := by
      have stored : capacityDue s true f = some (Capacity.bytes 0) :=
        GaugeWord.due_changed (w := .capacity) hc hcode f
      rw [hhigh, stored, Option.elim_some]
      decide
    rw [if_pos (Or.inl hvalid), if_pos rfl]
  | false =>
    rw [capacityDue_zero hc] at hhigh hlow
    have hclear : g.get Register.capacityHigh = 0 ∧ g.get Register.capacityLow = 0 := by
      by_cases hrecorded : f.get Register.capacityHigh ≠ 0 ∨ f.get Register.capacityLow ≠ 0
      · rw [if_pos hrecorded] at hhigh hlow
        exact ⟨hhigh, hlow⟩
      · rw [if_neg hrecorded] at hhigh hlow
        rw [hhigh, hlow]
        simpa using hrecorded
    rw [if_neg (by simp [hclear]), if_neg (by simp)]

/-- Any other capacity carries the valid bit once the first probe is through with it, and a second
one leaves it alone. -/
theorem capacityDue_again_nonzero {mah : Int32} {code : UInt16} (hc : s.capacity = some mah)
    (hzero : mah ≠ 0) (hcode : Capacity.encode mah.toInt = .ok code)
    (hhigh : g.get Register.capacityHigh =
      (capacityDue s changed f).elim (f.get Register.capacityHigh) BytePair.high) :
    capacityDue s false g = none := by
  have unchanged (f : RegisterFile) : capacityDue s false f =
      if f.get Register.capacityHigh &&& Capacity.valid = 0
      then some (Capacity.bytes code) else none :=
    GaugeWord.due_unchanged (w := .capacity) hc hcode hzero f
  have hstored : (Capacity.bytes code).high &&& Capacity.valid ≠ 0 := by
    rw [Capacity.bytes, or_and_self]
    decide
  have hvalid : g.get Register.capacityHigh &&& Capacity.valid ≠ 0 := by
    cases changed with
    | true =>
      have stored : capacityDue s true f = some (Capacity.bytes code) :=
        GaugeWord.due_changed (w := .capacity) hc hcode f
      rw [hhigh, stored]
      exact hstored
    | false =>
      rw [unchanged f] at hhigh
      by_cases hrecorded : f.get Register.capacityHigh &&& Capacity.valid = 0
      · rw [hhigh, if_pos hrecorded]
        exact hstored
      · rw [hhigh, if_neg hrecorded]
        exact hrecorded
  rw [unchanged g, if_neg hvalid]

end

/-- Of the capacity, all that a second probe can find left to do is to clear a zero that the first
one stored after the curve had changed. -/
theorem capacityDue_again {s : Settings} (hs : s.Encodable) (changed : Bool) {f g : RegisterFile}
    (hhigh : g.get Register.capacityHigh =
      (capacityDue s changed f).elim (f.get Register.capacityHigh) BytePair.high)
    (hlow : g.get Register.capacityLow =
      (capacityDue s changed f).elim (f.get Register.capacityLow) BytePair.low) :
    capacityDue s false g =
      if s.capacity = some 0 ∧ changed = true then some ⟨0, 0⟩ else none := by
  cases hc : s.capacity with
  | none => simp [capacityDue, hc]
  | some mah =>
    obtain ⟨code, hcode⟩ := hs.capacity mah hc
    by_cases hzero : mah = 0
    · subst hzero
      rw [capacityDue_again_zero hc hhigh hlow]
      simp only [true_and]
    · rw [capacityDue_again_nonzero hc hzero hcode hhigh, if_neg (by simp [hzero])]

/-- Of the capacity, the first probe of a pair leaves at most a stored zero to the second. -/
theorem capacityDue_calibrate_probed {s : Settings} (hs : s.Encodable) (f : RegisterFile) :
    capacityDue s false (calibrate (probed .none s f)) =
      if s.capacity = some 0 ∧ s.CurveDiffers f then some ⟨0, 0⟩ else none := by
  have hspares : ∀ r ∈ wordRegisters, Faults.none.Spares r := fun r _ => Faults.none_spares r
  obtain ⟨hhigh, hlow⟩ := get_probed_due s f hspares .capacity
  rw [capacityDue_again hs (decide (s.CurveDiffers f)) (f := f)]
  · simp only [decide_eq_true_eq]
  · rw [get_calibrate_of_ne _ (by decide)]
    exact hhigh
  · rw [get_calibrate_of_ne _ (by decide)]
    exact hlow

/-- Where no group finds anything to do, a probe leaves the registers as they are. -/
theorem probed_of_nothing_due {q : Faults} {s : Settings} {g : RegisterFile} (h : Settled s g)
    (hd : ¬ s.CurveDiffers g) (hresistance : resistanceDue s false g = none)
    (hcapacity : capacityDue s false g = none) : probed q s g = g := by
  have hseen (high : UInt8) : seen q high none = none := ite_self _
  rw [probed, decide_eq_false hd, settled_of_settled h, withCurve_of_not_differs hd, withWords,
    hresistance, hcapacity, hseen, hseen]
  rfl

/-- A second probe, after the gauge has measured its resistance, writes nothing and changes nothing
unless a capacity of zero was configured and the first probe wrote the curve anew. Then it clears
the zero that the first one stored, and writes nothing else. -/
theorem second_probe_quiet_iff {c : Charger} (hs : c.settings.Encodable) (f : RegisterFile)
    (hosts : Nat → Bool) :
    let rebooted := nextBoot c ⟨f, .never, hosts⟩
    let second := c.probe.run MemoryChip.board rebooted
    (∃ t, (c.probe.run MemoryChip.board ⟨f, .never, hosts⟩).outcome = .ok t) ∧
    (∃ t, second.outcome = .ok t) ∧
    (second.writes = [] ∧ second.board = rebooted ↔
      ¬ (c.settings.capacity = some 0 ∧ c.settings.CurveDiffers f)) ∧
    (c.settings.capacity = some 0 → c.settings.CurveDiffers f →
      second.writes = [(Register.capacityHigh, [0]), (Register.capacityLow, [0])]) := by
  intro rebooted second
  obtain ⟨-, t, events, hfirst, -⟩ := probe_reliable hs f hosts
  have hrebooted : rebooted = ⟨calibrate (probed .none c.settings f), .never, hosts⟩ := by
    rw [show rebooted = nextBoot c _ from rfl, nextBoot, hfirst]
  have hsettled := settled_calibrate_probed c.settings f
  have hd := not_differs_calibrate_probed c.settings f
  have hresistance := resistanceDue_calibrate c.settings (probed .none c.settings f)
  have hcapacity := capacityDue_calibrate_probed hs f
  generalize calibrate (probed .none c.settings f) = g
    at hrebooted hsettled hd hresistance hcapacity
  obtain ⟨-, t', events', hsecond, hwrites⟩ := probe_reliable hs g hosts
  have hevents := hwrites hsettled hd
  rw [hresistance, hcapacity] at hevents
  rw [← hrebooted] at hsecond
  have hsecond' : second = _ := hsecond
  refine ⟨⟨t, by rw [hfirst]⟩, ⟨t', by rw [hsecond']⟩, ?_, ?_⟩
  · constructor
    · rintro ⟨hquiet, -⟩ hzero
      rw [if_pos hzero] at hevents
      rw [hsecond', Program.Run.writes_mk, hevents] at hquiet
      cases hquiet
    · intro hzero
      rw [if_neg hzero] at hevents hcapacity
      have hsame := probed_of_nothing_due (q := .none) hsettled hd hresistance hcapacity
      rw [hsecond', hsame]
      exact ⟨hevents, hrebooted.symm⟩
  · intro hzero hdiffers
    rw [if_pos ⟨hzero, hdiffers⟩] at hevents
    rw [hsecond']
    exact hevents

/-! ## With and without a battery -/

/-- A board with a curve, and a battery of some capacity. -/
def battery (mah : Int32) : Charger := batteryBoard (some slope) 300 mah

theorem battery_second_probe_quiet :
    (battery 4000).settings.Encodable ∧ (battery 4000).settings.CurveDiffers .zero ∧
    let rebooted := nextBoot (battery 4000) ⟨.zero, .never, fun _ => true⟩
    let second := (battery 4000).probe.run MemoryChip.board rebooted
    second.writes = [] ∧ second.board = rebooted := by
  have hresistance : Resistance.encode (300 : Int32).toInt = .ok 0x117 := by decide
  have hcapacity : Capacity.encode (4000 : Int32).toInt = .ok 0xABB := by decide
  have hs : (battery 4000).settings.Encodable := Settings.encodable rfl hresistance rfl hcapacity
  have hnonzero : ¬ ((battery 4000).settings.capacity = some 0 ∧
      (battery 4000).settings.CurveDiffers .zero) := by decide
  exact ⟨hs, by decide, (second_probe_quiet_iff hs .zero fun _ => true).2.2.1.mpr hnonzero⟩

/-- Without a battery the second probe still writes: the first one stored a valid zero. -/
theorem no_battery_second_probe_writes :
    (battery 0).settings.Encodable ∧
    ((battery 0).probe.run MemoryChip.board
        (nextBoot (battery 0) ⟨.zero, .never, fun _ => true⟩)).writes =
      [(Register.capacityHigh, [0]), (Register.capacityLow, [0])] := by
  have hresistance : Resistance.encode (300 : Int32).toInt = .ok 0x117 := by decide
  have hcapacity : Capacity.encode (0 : Int32).toInt = .ok 0 := by decide
  exact ⟨Settings.encodable rfl hresistance rfl hcapacity, by decide +kernel⟩

end Bringup.Charger
