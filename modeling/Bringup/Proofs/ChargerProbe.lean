import Bringup.Proofs.ChargerSettings
import Bringup.Proofs.Gauge

/-! A whole charger probe: the settings, the curve, the words that follow the curve, and the
status report, put together from what each of them does to the chip. -/
namespace Bringup

open Bench (Faults MemoryChip RegisterFile)

theorem Program.run_logs {level : Log.Level} (lines : List String) (m : MemoryChip) :
    (lines.forM (Program.log level)).run MemoryChip.board m =
      ⟨.ok (), lines.map fun line => ⟨.log ⟨level, line⟩, ()⟩, m⟩ := by
  induction lines with
  | nil => rfl
  | cons line lines ih =>
    change Program.run MemoryChip.board
      (Program.log level line >>= fun _ => lines.forM (Program.log level)) m = _
    rw [Program.run_bind, Program.run_log, Program.single, Program.Run.andThen_ok]
    rw [show (MemoryChip.board m (.log ⟨level, line⟩)).2 = m from rfl, ih]
    rfl

theorem filterMap_write_logs {level : Log.Level} (lines : List String) :
    (lines.map fun line => (⟨.log ⟨level, line⟩, ()⟩ : Event)).filterMap Event.write? = [] := by
  induction lines with
  | nil => rfl
  | cons line lines ih => exact ih

namespace Chip

/-- Reporting the status leaves the chip alone, whatever the bus does. -/
theorem Device.reportStatus_run (d : Device) (q : Faults) (f : RegisterFile)
    (hosts : Nat → Bool) :
    ∃ result events, MemoryChip.run ⟨f, .always q, hosts⟩ d.reportStatus =
        ⟨.ok result, events, ⟨f, .always q, hosts⟩⟩ ∧
      events.filterMap Event.write? = [] := by
  obtain ⟨input, looks, hinput, hquiet⟩ := d.readByte_run StatusRegister.input.address f q hosts
  obtain ⟨charge, others, hcharge, hcalm⟩ := d.readByte_run StatusRegister.charge.address f q hosts
  unfold reportStatus
  cases input with
  | error e => exact ⟨.error e, looks, by simp [hinput], hquiet⟩
  | ok input =>
    cases charge with
    | error e =>
      refine ⟨.error e, looks ++ others, by simp [hinput, hcharge], ?_⟩
      rw [List.filterMap_append, hquiet, hcalm]
      rfl
    | ok charge =>
      have report (r : StatusRegister) (byte : UInt8) :
          MemoryChip.run ⟨f, .always q, hosts⟩ (liftM (r.report byte)) =
            ⟨.ok (.ok ()), (r.lines byte).map fun line => ⟨.log ⟨.info, line⟩, ()⟩,
              ⟨f, .always q, hosts⟩⟩ := by
        rw [MemoryChip.run_liftM, StatusRegister.report, Program.run_logs]
        rfl
      refine ⟨.ok (), looks ++ (others ++ (_ ++ _)), by simp [hinput, hcharge, report]; rfl, ?_⟩
      simp only [List.filterMap_append, hquiet, hcalm, filterMap_write_logs, List.append_nil]

end Chip

namespace Charger

open Chip

section
variable {q : Faults} {hosts : Nat → Bool}

/-- Whether the curve group wrote the curve anew. -/
def wroteCurve : Except ChipError Outcome → Bool
  | .ok .written => true
  | _ => false

/-- What the curve group comes to in a probe: it runs once the settings are through. -/
def curveResult (c : Charger) (m : MemoryChip) : Checked (Except ChipError Outcome) :=
  let settled := (Tally.empty.runGroups (groups c.settings)).run MemoryChip.board m
  (settled.board.run (applyCurve c.settings)).outcome

theorem probe_eq (c : Charger) : c.probe = (do
    let tally ← Tally.empty.runGroups (groups c.settings)
    let curve ← (applyCurve c.settings).run
    let tally ← tally.record "OCV table" curve
    let tally ← tally.runGroups (gaugeGroups c.settings (wroteCurve curve))
    match ← device.reportStatus.run with
    | .ok () => return tally
    | .error e => tally.record "status" (.error e)) := rfl

/-- A probe as the chip sees it: the settings, the curve, then the words. -/
theorem probe_run {c : Charger} {m m₁ m₂ : MemoryChip} {f : RegisterFile}
    {results words : List (Except ChipError Outcome)} {result : Except ChipError Outcome}
    {events : List Event} {before after : List (UInt8 × List UInt8)}
    (settings : Passes (groups c.settings) m results before m₁)
    (curve : m₁.run (applyCurve c.settings) = ⟨.ok result, events, m₂⟩)
    (gauge : Passes (gaugeGroups c.settings (wroteCurve result)) m₂ words after
      ⟨f, .always q, hosts⟩) :
    curveResult c m = .ok result ∧
    ∃ t events', c.probe.run MemoryChip.board m = ⟨.ok t, events', ⟨f, .always q, hosts⟩⟩ ∧
      events'.filterMap Event.write? = before ++ (events.filterMap Event.write? ++ after) := by
  -- Thirteen or fourteen results are counted, far from what a counter holds.
  have room₁ : Tally.empty.total + (groups c.settings).length ≤ 255 := by
    change 0 + 10 ≤ 255
    omega
  obtain ⟨ev₁, h₁, hw₁⟩ := settings.runGroups_run room₁
  have total₁ : (results.foldl Tally.tick .empty).total = 10 := settings.total_eq room₁
  generalize results.foldl Tally.tick .empty = t₁ at h₁ total₁
  obtain ⟨ev₂, h₂, hw₂⟩ := Tally.record_run (by omega : t₁.total < 255) "OCV table" result m₂
  have total₂ := Tally.total_tick (by omega : t₁.total < 255) result
  generalize t₁.tick result = t₂ at h₂ total₂
  have room₃ : t₂.total + (gaugeGroups c.settings (wroteCurve result)).length ≤ 255 := by
    change t₂.total + 2 ≤ 255
    omega
  obtain ⟨ev₃, h₃, hw₃⟩ := gauge.runGroups_run room₃
  have total₃ : (words.foldl Tally.tick t₂).total = t₂.total + 2 := gauge.total_eq room₃
  generalize words.foldl Tally.tick t₂ = t₃ at h₃ total₃
  obtain ⟨status, ev₄, h₄, hw₄⟩ := device.reportStatus_run q f hosts
  have curve' : (applyCurve c.settings).run.run MemoryChip.board m₁ = ⟨.ok result, events, m₂⟩ :=
    curve
  have h₄' : device.reportStatus.run.run MemoryChip.board ⟨f, .always q, hosts⟩ =
      ⟨.ok status, ev₄, ⟨f, .always q, hosts⟩⟩ := h₄
  constructor
  · simp only [curveResult, h₁, curve]
  · cases status with
    | ok =>
      refine ⟨t₃, ev₁ ++ (events ++ (ev₂ ++ (ev₃ ++ ev₄))), ?_, ?_⟩
      · rw [probe_eq]
        simp [h₁, curve', h₂, h₃, h₄']
      · simp [hw₁, hw₂, hw₃, hw₄]
    | error e =>
      obtain ⟨ev₅, h₅, hw₅⟩ := Tally.record_run (by omega : t₃.total < 255) "status" (.error e)
        ⟨f, .always q, hosts⟩
      refine ⟨t₃.tick (.error e), ev₁ ++ (events ++ (ev₂ ++ (ev₃ ++ (ev₄ ++ ev₅)))), ?_, ?_⟩
      · rw [probe_eq]
        simp [h₁, curve', h₂, h₃, h₄', h₅]
      · simp [hw₁, hw₂, hw₃, hw₄, hw₅]

/-! ## The registers a probe leaves behind -/

/-- Registers once every setting is in its place. -/
def settled (s : Settings) (f : RegisterFile) : RegisterFile :=
  Revision.applyAll (revisions s (f.get Register.inputStatus)).flatten f

/-- Every setting is in its place already. -/
def Settled (s : Settings) (f : RegisterFile) : Prop :=
  ∀ v ∈ (revisions s (f.get Register.inputStatus)).flatten, v.Holds f

theorem get_settled_of_not_mem (s : Settings) (f : RegisterFile) {r : UInt8}
    (h : r ∉ settingRegisters) : (settled s f).get r = f.get r :=
  Revision.get_applyAll_of_ne (revisions_elsewhere s _ h) f

theorem settled_of_settled {s : Settings} {f : RegisterFile} (h : Settled s f) :
    settled s f = f :=
  Revision.applyAll_of_holds h

theorem curve_not_setting : ∀ i < Curve.size,
    Register.curve + UInt8.ofNat i ∉ settingRegisters := by
  decide

theorem curveDiffers_settled (s : Settings) (f : RegisterFile) :
    s.CurveDiffers (settled s f) ↔ s.CurveDiffers f :=
  curveDiffers_congr fun i hi => get_settled_of_not_mem s f (curve_not_setting i hi)

/-- What a probe comes to once the curve group is through, however that ended. -/
theorem probe_settles {c : Charger} (hs : c.settings.Encodable) (hq : SparesSettings q)
    (hlow : c.settings.capacity = some 0 → q Register.capacityLow .read = none)
    {f g : RegisterFile} {result : Except ChipError Outcome} {events : List Event}
    (curve : MemoryChip.run ⟨settled c.settings f, .always q, hosts⟩ (applyCurve c.settings) =
      ⟨.ok result, events, ⟨g, .always q, hosts⟩⟩) :
    curveResult c ⟨f, .always q, hosts⟩ = .ok result ∧
    ∃ t events', c.probe.run MemoryChip.board ⟨f, .always q, hosts⟩ =
        ⟨.ok t, events', ⟨withWords q c.settings (wroteCurve result) g, .always q, hosts⟩⟩ ∧
      (Settled c.settings f → (∀ r ∈ wordRegisters, q.Spares r) →
        events'.filterMap Event.write? = events.filterMap Event.write? ++
          (dueWrites Register.resistanceHigh Register.resistanceLow
              (resistanceDue c.settings (wroteCurve result) g) ++
            dueWrites Register.capacityHigh Register.capacityLow
              (capacityDue c.settings (wroteCurve result) g))) := by
  obtain ⟨results, before, hsettings, hbefore⟩ := settings_pass c.settings hq f hosts
  obtain ⟨words, after, hwords, hafter⟩ := gauge_pass hs (wroteCurve result) hlow g hosts
  obtain ⟨hcurve, t, events', hrun, hwrites⟩ := probe_run hsettings curve hwords
  refine ⟨hcurve, t, events', hrun, fun hsettled hspares => ?_⟩
  rw [hwrites, hbefore hsettled, hafter hspares]
  rfl

/-- The curve counts as rewritten just when it differed. -/
theorem wroteCurve_outcome (s : Settings) (f : RegisterFile) :
    wroteCurve (.ok (curveOutcome s f)) = decide (s.CurveDiffers f) := by
  unfold curveOutcome
  cases hc : s.curve with
  | none =>
    have hd : ¬ s.CurveDiffers f := by simp [Settings.CurveDiffers, hc]
    rw [decide_eq_false hd]
    rfl
  | some curve =>
    by_cases hd : s.CurveDiffers f
    · simp only [hd, if_true, decide_true]
      rfl
    · simp only [hd, if_false, decide_false]
      rfl

/-- Registers after a probe in which only the words may be disturbed. -/
def probed (q : Faults) (s : Settings) (f : RegisterFile) : RegisterFile :=
  withWords q s (decide (s.CurveDiffers f)) (withCurve s (settled s f))

theorem probe_spared {c : Charger} (hs : c.settings.Encodable) (hq : SparesSettings q)
    (hcurve : SparesCurve q)
    (hlow : c.settings.capacity = some 0 → q Register.capacityLow .read = none)
    (f : RegisterFile) (hosts : Nat → Bool) :
    curveResult c ⟨f, .always q, hosts⟩ = .ok (.ok (curveOutcome c.settings f)) ∧
    ∃ t events, c.probe.run MemoryChip.board ⟨f, .always q, hosts⟩ =
        ⟨.ok t, events, ⟨probed q c.settings f, .always q, hosts⟩⟩ ∧
      (Settled c.settings f → ¬ c.settings.CurveDiffers f → (∀ r ∈ wordRegisters, q.Spares r) →
        events.filterMap Event.write? =
          dueWrites Register.resistanceHigh Register.resistanceLow
              (resistanceDue c.settings false f) ++
            dueWrites Register.capacityHigh Register.capacityLow
              (capacityDue c.settings false f)) := by
  obtain ⟨looks, hrun, hquiet⟩ :=
    run_applyCurve c.settings hcurve (settled c.settings f) hosts
  rw [curveOutcome_congr (curveDiffers_settled c.settings f)] at hrun
  obtain ⟨hresult, t, events, hprobe, hwrites⟩ := probe_settles hs hq hlow hrun
  rw [wroteCurve_outcome] at hprobe hwrites
  refine ⟨hresult, t, events, hprobe, fun hsettled hd hspares => ?_⟩
  rw [settled_of_settled hsettled] at hquiet hwrites
  rw [hwrites hsettled hspares, hquiet hd, decide_eq_false hd, withCurve_of_not_differs hd]
  rfl

/-- Where the bus lets everything through, a probe ends, and what it leaves behind is a matter of
the settings and the registers. -/
theorem probe_reliable {c : Charger} (hs : c.settings.Encodable) (f : RegisterFile)
    (hosts : Nat → Bool) :
    curveResult c ⟨f, .never, hosts⟩ = .ok (.ok (curveOutcome c.settings f)) ∧
    ∃ t events, c.probe.run MemoryChip.board ⟨f, .never, hosts⟩ =
        ⟨.ok t, events, ⟨probed .none c.settings f, .never, hosts⟩⟩ ∧
      (Settled c.settings f → ¬ c.settings.CurveDiffers f →
        events.filterMap Event.write? =
          dueWrites Register.resistanceHigh Register.resistanceLow
              (resistanceDue c.settings false f) ++
            dueWrites Register.capacityHigh Register.capacityLow
              (capacityDue c.settings false f)) := by
  obtain ⟨hresult, t, events, hprobe, hwrites⟩ :=
    probe_spared hs ⟨Faults.none_spares _, fun r _ => Faults.none_spares r⟩
      (fun i _ => Faults.none_spares _) (fun _ => rfl) f hosts
  exact ⟨hresult, t, events, hprobe,
    fun hsettled hd => hwrites hsettled hd fun r _ => Faults.none_spares r⟩

end

theorem curve_not_word : ∀ i < Curve.size, Register.curve + UInt8.ofNat i ∉ wordRegisters := by
  decide

/-- The words lie outside of the curve. -/
theorem curveDiffers_withWords (q : Faults) (s : Settings) (changed : Bool) (f : RegisterFile) :
    s.CurveDiffers (withWords q s changed f) ↔ s.CurveDiffers f :=
  curveDiffers_congr fun i hi => get_withWords_of_not_mem s changed f (curve_not_word i hi)

/-- A probe whose curve group meets no failure leaves the configured curve behind. -/
theorem not_differs_probed (q : Faults) (s : Settings) (f : RegisterFile) :
    ¬ s.CurveDiffers (probed q s f) := by
  rw [probed, curveDiffers_withWords]
  exact not_differs_withCurve s (settled s f)

section
variable (s : Settings) (f : RegisterFile)

/-- No setting shares a register with the gauge. -/
theorem setting_not_gauge : ∀ r ∈ settingRegisters,
    r ∉ wordRegisters ∧ Curve.size ≤ (r - Register.curve).toNat := by
  decide +kernel

theorem word_not_setting : ∀ r ∈ wordRegisters,
    r ∉ settingRegisters ∧ Curve.size ≤ (r - Register.curve).toNat := by
  decide +kernel

theorem get_probed_setting (q : Faults) {r : UInt8} (h : r ∈ settingRegisters) :
    (probed q s f).get r = (settled s f).get r := by
  obtain ⟨hword, hcurve⟩ := setting_not_gauge r h
  rw [probed, get_withWords_of_not_mem _ _ _ hword, get_withCurve_of_le _ _ hcurve]

/-- The words are seen to with their registers as they were. -/
theorem get_before_words {r : UInt8} (h : r ∈ wordRegisters) :
    (withCurve s (settled s f)).get r = f.get r := by
  obtain ⟨hsetting, hcurve⟩ := word_not_setting r h
  rw [get_withCurve_of_le _ _ hcurve, get_settled_of_not_mem _ _ hsetting]

theorem due_before_words (w : GaugeWord) (changed : Bool) :
    w.due s changed (withCurve s (settled s f)) = w.due s changed f :=
  GaugeWord.due_congr (get_before_words s f (w.mem_wordRegisters (.head _)))
    (get_before_words s f (w.mem_wordRegisters (.tail _ (.head _))))

/-- After a probe each word's registers stand as if only the word had been seen to. -/
theorem get_probed_word (q : Faults) {w : GaugeWord} {r : UInt8} (h : r ∈ w.registers) :
    (probed q s f).get r = (storeDue q w.high w.low
      (seen q w.high (w.due s (decide (s.CurveDiffers f)) f)) f).get r := by
  rw [probed, get_withWords q s _ _ h, due_before_words]
  exact get_storeDue_congr _ (get_before_words s f (w.mem_wordRegisters h))

/-- Where no transfer of the words fails, both registers hold what is due. -/
theorem get_probed_due {q : Faults} (hq : ∀ r ∈ wordRegisters, q.Spares r) (w : GaugeWord) :
    (probed q s f).get w.high =
        (w.due s (decide (s.CurveDiffers f)) f).elim (f.get w.high) BytePair.high ∧
      (probed q s f).get w.low =
        (w.due s (decide (s.CurveDiffers f)) f).elim (f.get w.low) BytePair.low := by
  have high : w.high ∈ w.registers := .head _
  have low : w.low ∈ w.registers := .tail _ (.head _)
  have hhigh := hq _ (w.mem_wordRegisters high)
  have hlow := hq _ (w.mem_wordRegisters low)
  rw [get_probed_word s f q high, get_probed_word s f q low, seen_of_spares hq]
  exact ⟨get_storeDue_high hhigh hlow w.low_ne_high _ f, get_storeDue_low hhigh hlow _ f⟩

end

end Charger

end Bringup
