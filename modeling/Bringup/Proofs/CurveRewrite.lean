import Bringup.Proofs.ChargerProbe

/-! A rewrite of the curve that the bus cuts short. The next probe has only the registers to go by:
it takes the rewrite up again when it sees a byte that differs. Where the bytes that were not
reached were right all along, it sees none, and the words that should have followed the curve are
not written any more. -/
namespace Bringup.Charger

open Bench (Faults MemoryChip RegisterFile)
open Chip

/-- A probe of the chip writes the curve anew and leaves the whole gauge as it is configured. -/
structure Recalibrates (c : Charger) (m : MemoryChip) (curve : Curve)
    (resistance capacity : BytePair) : Prop where
  written : curveResult c m = .ok (.ok .written)
  curve : (c.probe.run MemoryChip.board m).board.registers.Shows Register.curve curve.bytes
  resistanceHigh :
    (c.probe.run MemoryChip.board m).board.get Register.resistanceHigh = resistance.high
  resistanceLow :
    (c.probe.run MemoryChip.board m).board.get Register.resistanceLow = resistance.low
  capacityHigh : (c.probe.run MemoryChip.board m).board.get Register.capacityHigh = capacity.high
  capacityLow : (c.probe.run MemoryChip.board m).board.get Register.capacityLow = capacity.low

section
variable {c : Charger} {f : RegisterFile} {curve : Curve} {k : Nat}

/-- The probe that is cut short at byte `k` of the curve, and what it leaves behind: the curve up
to that byte, and words that were seen to as if the curve had not changed. -/
theorem probe_cut_short (hs : c.settings.Encodable) (hcurve : c.settings.curve = some curve)
    (hd : ¬ f.Shows Register.curve curve.bytes) (hk : k < curve.bytes.length) (code : Int)
    (hosts : Nat → Bool) :
    let q := Faults.failsWrite (Register.curve + UInt8.ofNat k) code
    (∃ e, curveResult c ⟨f, .always q, hosts⟩ = .ok (.error e)) ∧
    ∃ t events, c.probe.run MemoryChip.board ⟨f, .always q, hosts⟩ = ⟨.ok t, events,
      ⟨withWords q c.settings false
        ((settled c.settings f).setAll Register.curve (curve.bytes.take k)), .always q, hosts⟩⟩ := by
  intro q
  have hsize : k < Curve.size := Nat.lt_of_lt_of_le hk curve.fits
  have hq : SparesSettings q := by
    have apart : ∀ i < Curve.size, Register.inputStatus ≠ Register.curve + UInt8.ofNat i := by
      decide
    refine ⟨Faults.failsWrite_spares code (apart k hsize), fun r hr =>
      Faults.failsWrite_spares code ?_⟩
    rintro rfl
    exact curve_not_setting k hsize hr
  have hdiffers : c.settings.CurveDiffers (settled c.settings f) :=
    (curveDiffers_settled c.settings f).mpr ((curveDiffers_iff hcurve f).mpr hd)
  have before : ∀ i < k, q (Register.curve + UInt8.ofNat i) .write = none := by
    intro i hi
    have hfile := curve.fits_file
    refine Faults.failsWrite_spares code (fun h => ?_) .write
    have := RegisterFile.add_ofNat_inj (by omega) (by omega) h
    omega
  obtain ⟨e, events, hrun⟩ := run_applyCurve_fails hcurve hdiffers hosts hk
    (fun i _ => Faults.failsWrite_read _ _ code) before (Faults.failsWrite_self _ code)
  obtain ⟨hresult, t, events', hprobe, -⟩ :=
    probe_settles hs hq (fun _ => Faults.failsWrite_read _ _ code) hrun
  exact ⟨⟨e, hresult⟩, t, events', hprobe⟩

/-- The next probe sees a difference just where one was left beyond byte `k`. -/
theorem curveDiffers_cut_short {q : Faults} (hcurve : c.settings.curve = some curve) (k : Nat) :
    c.settings.CurveDiffers (withWords q c.settings false
        ((settled c.settings f).setAll Register.curve (curve.bytes.take k))) ↔
      ∃ (i : Nat) (h : i < curve.bytes.length), k ≤ i ∧
        f.get (Register.curve + UInt8.ofNat i) ≠ curve.bytes[i] := by
  have hget (i : Nat) (hi : i < curve.bytes.length) :
      (settled c.settings f).get (Register.curve + UInt8.ofNat i) =
        f.get (Register.curve + UInt8.ofNat i) :=
    get_settled_of_not_mem _ f (curve_not_setting i (Nat.lt_of_lt_of_le hi curve.fits))
  rw [curveDiffers_withWords, curveDiffers_iff hcurve,
    RegisterFile.shows_setAll_take_iff _ _ curve.fits_file]
  constructor
  · intro h
    by_contra none_left
    refine h fun i hi hki => ?_
    rw [hget i hi]
    by_contra hne
    exact none_left ⟨i, hi, hki, hne⟩
  · rintro ⟨i, hi, hki, hne⟩ h
    exact hne (hget i hi ▸ h i hi hki)

/-- On a bus that lets everything through, a probe recalibrates the gauge just when it sees
another curve. -/
theorem recalibrates_iff_curveDiffers {mohm mah : Int32} {resistance capacity : UInt16}
    (hcurve : c.settings.curve = some curve)
    (hmohm : c.settings.resistance = some mohm)
    (hresistance : Resistance.encode mohm.toInt = .ok resistance)
    (hmah : c.settings.capacity = some mah)
    (hcapacity : Capacity.encode mah.toInt = .ok capacity) (g : RegisterFile)
    (hosts : Nat → Bool) :
    Recalibrates c ⟨g, .never, hosts⟩ curve (Resistance.bytes resistance)
        (Capacity.bytes capacity) ↔
      c.settings.CurveDiffers g := by
  have hs := Settings.encodable hmohm hresistance hmah hcapacity
  obtain ⟨hresult, t, events, hprobe, -⟩ := probe_reliable hs g hosts
  have hspares : ∀ r ∈ wordRegisters, Faults.none.Spares r := fun r _ => Faults.none_spares r
  constructor
  · intro h
    have hwritten := hresult.symm.trans h.written
    exact (curveOutcome_eq_written_iff _ _).mp (Except.ok.inj (Except.ok.inj hwritten))
  · intro hd
    obtain ⟨resistanceHigh, resistanceLow⟩ := get_probed_due c.settings g hspares .resistance
    obtain ⟨capacityHigh, capacityLow⟩ := get_probed_due c.settings g hspares .capacity
    rw [decide_eq_true hd, GaugeWord.due_changed (w := .resistance) hmohm hresistance]
      at resistanceHigh resistanceLow
    rw [decide_eq_true hd, GaugeWord.due_changed (w := .capacity) hmah hcapacity]
      at capacityHigh capacityLow
    constructor
    · rw [hresult, (curveOutcome_eq_written_iff _ _).mpr hd]
    · have hshown := not_differs_probed .none c.settings g
      rw [curveDiffers_iff hcurve, Decidable.not_not] at hshown
      rw [hprobe]
      exact hshown
    · rw [hprobe]
      exact resistanceHigh
    · rw [hprobe]
      exact resistanceLow
    · rw [hprobe]
      exact capacityHigh
    · rw [hprobe]
      exact capacityLow

/-- After a rewrite of the curve that failed at byte `k`, the next probe always leaves the chip
with the configured curve. It also brings the words up to date just when a byte from `k` on
differed to begin with. -/
theorem cut_short_rewrite_recalibrates_iff {mohm mah : Int32} {resistance capacity : UInt16}
    (hcurve : c.settings.curve = some curve)
    (hmohm : c.settings.resistance = some mohm)
    (hresistance : Resistance.encode mohm.toInt = .ok resistance)
    (hmah : c.settings.capacity = some mah)
    (hcapacity : Capacity.encode mah.toInt = .ok capacity)
    (hd : ¬ f.Shows Register.curve curve.bytes) (hk : k < curve.bytes.length) (code : Int)
    (hosts : Nat → Bool) :
    let m : MemoryChip :=
      ⟨f, .always (Faults.failsWrite (Register.curve + UInt8.ofNat k) code), hosts⟩
    let rebooted := (c.probe.run MemoryChip.board m).board.reliable
    let second := c.probe.run MemoryChip.board rebooted
    (∃ e, curveResult c m = .ok (.error e)) ∧
    (∃ t, (c.probe.run MemoryChip.board m).outcome = .ok t) ∧
    (∃ t, second.outcome = .ok t) ∧
    second.board.registers.Shows Register.curve curve.bytes ∧
    (Recalibrates c rebooted curve (Resistance.bytes resistance) (Capacity.bytes capacity) ↔
      ∃ (i : Nat) (h : i < curve.bytes.length), k ≤ i ∧
        f.get (Register.curve + UInt8.ofNat i) ≠ curve.bytes[i]) := by
  intro m rebooted second
  have hs := Settings.encodable hmohm hresistance hmah hcapacity
  obtain ⟨hfailed, t, events, hfirst⟩ := probe_cut_short hs hcurve hd hk code hosts
  have hdiffers := curveDiffers_cut_short (f := f)
    (q := Faults.failsWrite (Register.curve + UInt8.ofNat k) code) hcurve k
  generalize withWords _ _ _ _ = g at hfirst hdiffers
  have hrebooted : rebooted = ⟨g, .never, hosts⟩ := by
    rw [show rebooted = (c.probe.run MemoryChip.board m).board.reliable from rfl, hfirst]
    rfl
  obtain ⟨hresult, t', events', hsecond, -⟩ := probe_reliable hs g hosts
  rw [← hrebooted] at hresult hsecond
  have hshown : second.board.registers.Shows Register.curve curve.bytes := by
    have := not_differs_probed .none c.settings g
    rw [curveDiffers_iff hcurve, Decidable.not_not] at this
    rw [show second = _ from hsecond]
    exact this
  refine ⟨hfailed, ⟨t, by rw [hfirst]⟩, ⟨t', by rw [show second = _ from hsecond]⟩, hshown, ?_⟩
  rw [hrebooted, ← hdiffers]
  exact recalibrates_iff_curveDiffers hcurve hmohm hresistance hmah hcapacity g hosts

end

/-! ## A rewrite that is never finished -/

/-- A curve of two bytes, the second of them zero. -/
def shortCurve : Curve := ⟨[1, 0], by decide⟩

def shortBoard : Charger := batteryBoard (some shortCurve) 300 4000

/-- A gauge that has measured the resistance of another battery and has its capacity on record. -/
def otherBattery : RegisterFile :=
  (RegisterFile.zero.set Register.resistanceHigh Resistance.calibrated).set
    Register.capacityHigh Capacity.valid

/-- The short board after its rewrite was cut short at byte `k`, and the bus as good as new. -/
def rebooted (k : Nat) : MemoryChip :=
  let m : MemoryChip :=
    ⟨otherBattery, .always (Faults.failsWrite (Register.curve + UInt8.ofNat k) 5), fun _ => true⟩
  (shortBoard.probe.run MemoryChip.board m).board.reliable

/-- Cut short at its first byte, the rewrite is finished. -/
theorem first_byte_cut_short_recalibrates :
    Resistance.encode (300 : Int32).toInt = .ok 0x117 ∧
    Capacity.encode (4000 : Int32).toInt = .ok 0xABB ∧
    ¬ otherBattery.Shows Register.curve shortCurve.bytes ∧ 0 < shortCurve.bytes.length ∧
    Recalibrates shortBoard (rebooted 0) shortCurve ⟨0x81, 0x17⟩ ⟨0x8A, 0xBB⟩ := by
  have hresistance : Resistance.encode (300 : Int32).toInt = .ok 0x117 := by decide
  have hcapacity : Capacity.encode (4000 : Int32).toInt = .ok 0xABB := by decide
  have hd : ¬ otherBattery.Shows Register.curve shortCurve.bytes := by decide
  have hk : 0 < shortCurve.bytes.length := by decide
  have h := cut_short_rewrite_recalibrates_iff (c := shortBoard) rfl rfl hresistance rfl hcapacity
    hd hk 5 fun _ => true
  exact ⟨hresistance, hcapacity, hd, hk, h.2.2.2.2.mpr ⟨0, by decide, Nat.le_refl 0, by decide⟩⟩

/-- Cut short at its second byte, it is not: the zero that was still to be written was there from
the start, and the words of the other battery stay. -/
theorem second_byte_cut_short_not_recalibrated :
    Resistance.encode (300 : Int32).toInt = .ok 0x117 ∧
    Capacity.encode (4000 : Int32).toInt = .ok 0xABB ∧
    ¬ otherBattery.Shows Register.curve shortCurve.bytes ∧ 1 < shortCurve.bytes.length ∧
    curveResult shortBoard (rebooted 1) = .ok (.ok .unchanged) ∧
    (shortBoard.probe.run MemoryChip.board (rebooted 1)).board.get Register.resistanceLow = 0 ∧
    ¬ Recalibrates shortBoard (rebooted 1) shortCurve ⟨0x81, 0x17⟩ ⟨0x8A, 0xBB⟩ := by
  have hresult : curveResult shortBoard (rebooted 1) = .ok (.ok .unchanged) := by decide +kernel
  refine ⟨by decide, by decide, by decide, by decide, hresult, by decide +kernel, fun h => ?_⟩
  have := hresult.symm.trans h.written
  cases this

end Bringup.Charger
