import Bringup.Proofs.CalibrationWords
import Bringup.Proofs.ChargerProbe

/-! What the words of the gauge come to when transfers of theirs fail in one probe and the next one
meets no failure. The next probe writes a word only while its flag asks for it. The resistance is
safe from a torn write, since its high byte takes the flag back; the capacity is not, since its high
byte sets the flag. -/
namespace Bringup.Charger

open Bench (Faults MemoryChip RegisterFile)
open Chip

def resistanceWord (f : RegisterFile) : UInt16 :=
  Resistance.word (f.get Register.resistanceHigh) (f.get Register.resistanceLow)

def capacityWord (f : RegisterFile) : UInt16 :=
  Capacity.word (f.get Register.capacityHigh) (f.get Register.capacityLow)

/-! ## What a word reads -/

namespace GaugeWord

/-- The word that two bytes come to. -/
def read : GaugeWord → UInt8 → UInt8 → UInt16
  | resistance => Resistance.word
  | capacity => Capacity.word

/-- The word as the registers show it. -/
def shown (w : GaugeWord) (f : RegisterFile) : UInt16 := w.read (f.get w.high) (f.get w.low)

/-- Codes below this one come through whole. -/
def room : GaugeWord → Nat
  | resistance => 0x2000
  | capacity => 0x8000

theorem read_bytes {w : GaugeWord} {code : UInt16} (h : code.toNat < w.room) :
    w.read (w.bytes code).high (w.bytes code).low = code := by
  cases w with
  | resistance => exact Resistance.word_bytes h
  | capacity => exact Capacity.word_bytes h

section
variable {w : GaugeWord} {s : Settings} {value : Int32} {code : UInt16}

/-- A value other than zero is due after the curve changed, and while the gauge has none. -/
theorem due_of_called (h : w.setting s = some value) (hne : value ≠ 0)
    (hcode : w.encode value.toInt = .ok code) {f : RegisterFile}
    (called : s.CurveDiffers f ∨ f.get w.high &&& w.flag = 0) :
    w.due s (decide (s.CurveDiffers f)) f = some (w.bytes code) := by
  by_cases hd : s.CurveDiffers f
  · rw [decide_eq_true hd, due_changed h hcode]
  · rw [decide_eq_false hd, due_unchanged h hcode hne, if_pos (called.resolve_left hd)]

/-! ## The disturbed probe -/

variable {q : Faults}

/-- A word out of reach stays as it was. -/
theorem kept (h : ¬ q.Spares w.high) (f : RegisterFile) :
    (probed q s f).get w.high = f.get w.high ∧ w.shown (probed q s f) = w.shown f := by
  have same (r : UInt8) (hr : r ∈ w.registers) : (probed q s f).get r = f.get r := by
    rw [get_probed_word s f q hr, storeDue_of_not_spares h]
  have high := same w.high (.head _)
  refine ⟨high, ?_⟩
  rw [shown, high, same w.low (.tail _ (.head _))]
  rfl

/-- In reach, the high byte of a word that is due arrives whatever becomes of the low one. -/
theorem reached (h : q.Spares w.high) {f : RegisterFile} {pair : BytePair}
    (hdue : w.due s (decide (s.CurveDiffers f)) f = some pair) :
    (probed q s f).get w.high = pair.high ∧
    (probed q s f).get w.low = if q w.low .write = none then pair.low else f.get w.low := by
  have high : w.high ∈ w.registers := .head _
  have low : w.low ∈ w.registers := .tail _ (.head _)
  rw [get_probed_word s f q high, get_probed_word s f q low, hdue, storeDue_of_spares h]
  split
  · constructor
    · rw [RegisterFile.get_set_of_ne _ _ w.low_ne_high, RegisterFile.get_set_self]
    · rw [RegisterFile.get_set_self]
  · constructor
    · rw [RegisterFile.get_set_self]
    · rw [RegisterFile.get_set_of_ne _ _ w.low_ne_high.symm]

/-! ## The probe after it -/

/-- The next probe writes the word as long as the gauge has none of its own. -/
theorem shown_probed (h : w.setting s = some value) (hne : value ≠ 0)
    (hcode : w.encode value.toInt = .ok code) (hfits : code.toNat < w.room)
    {g : RegisterFile} (hd : ¬ s.CurveDiffers g) : w.shown (probed .none s g) =
      if g.get w.high &&& w.flag = 0 then code else w.shown g := by
  obtain ⟨high, low⟩ := get_probed_due s g (fun r _ => Faults.none_spares r) w
  rw [shown, high, low, decide_eq_false hd, due_unchanged h hcode hne]
  split
  · exact read_bytes hfits
  · rfl

/-- Where the disturbed probe did not reach the word, it is right in the end just when the gauge had
none of its own to begin with or the right one. -/
theorem shown_restored_of_not_spares (h : w.setting s = some value) (hne : value ≠ 0)
    (hcode : w.encode value.toInt = .ok code) (hfits : code.toNat < w.room)
    (unreached : ¬ q.Spares w.high) (f : RegisterFile) :
    w.shown (probed .none s (probed q s f)) = code ↔
      f.get w.high &&& w.flag = 0 ∨ w.shown f = code := by
  obtain ⟨hhigh, hword⟩ := kept (w := w) (s := s) unreached f
  rw [shown_probed h hne hcode hfits (not_differs_probed q s f), hhigh, hword]
  by_cases hclear : f.get w.high &&& w.flag = 0
  · rw [if_pos hclear]
    exact ⟨fun _ => .inl hclear, fun _ => rfl⟩
  · rw [if_neg hclear]
    exact ⟨.inr, fun right => right.resolve_left hclear⟩

end

end GaugeWord

/-! ## Both probes -/

section
variable {s : Settings} {mohm mah : Int32} {resistance capacity : UInt16}

/-- The resistance is right in the end just when the gauge had none of its own to begin with, the
disturbed probe reached the high byte, or the right word was there all along. -/
theorem resistanceWord_restored_iff (hmohm : s.resistance = some mohm) (hne : mohm ≠ 0)
    (hcode : Resistance.encode mohm.toInt = .ok resistance) (hfits : resistance.toNat < 0x2000)
    (q : Faults) {f : RegisterFile}
    (hdue : s.CurveDiffers f ∨ f.get Register.resistanceHigh &&& Resistance.calibrated = 0) :
    resistanceWord (probed .none s (probed q s f)) = resistance ↔
      f.get Register.resistanceHigh &&& Resistance.calibrated = 0 ∨
        q.Spares Register.resistanceHigh ∨ resistanceWord f = resistance := by
  by_cases hspares : q.Spares Register.resistanceHigh
  · have due := GaugeWord.due_of_called (w := .resistance) hmohm hne hcode hdue
    obtain ⟨hhigh, -⟩ :
        (probed q s f).get Register.resistanceHigh = (Resistance.bytes resistance).high ∧ _ :=
      GaugeWord.reached hspares due
    have hclear : (probed q s f).get Register.resistanceHigh &&& Resistance.calibrated = 0 := by
      rw [hhigh]
      exact Resistance.bytes_not_calibrated resistance
    have shown := GaugeWord.shown_probed (w := .resistance) hmohm hne hcode hfits
      (not_differs_probed q s f)
    exact ⟨fun _ => .inr (.inl hspares), fun _ => shown.trans (if_pos hclear)⟩
  · refine (GaugeWord.shown_restored_of_not_spares (w := .resistance) hmohm hne hcode hfits
      hspares f).trans ?_
    constructor
    · exact fun right => right.imp id .inr
    · exact fun right => right.imp id fun rest => rest.resolve_left hspares

/-- The capacity is right in the end just when both of its bytes were written or the low one was
right before, or when the high byte was not reached and the next probe still found none on record
or the right one. -/
theorem capacityWord_restored_iff (hmah : s.capacity = some mah) (hne : mah ≠ 0)
    (hcode : Capacity.encode mah.toInt = .ok capacity) (hfits : capacity.toNat < 0x8000)
    (q : Faults) {f : RegisterFile}
    (hdue : s.CurveDiffers f ∨ f.get Register.capacityHigh &&& Capacity.valid = 0) :
    capacityWord (probed .none s (probed q s f)) = capacity ↔
      if q Register.capacityHigh .read = none ∧ q Register.capacityHigh .write = none then
        q Register.capacityLow .write = none ∨
          f.get Register.capacityLow = (Capacity.bytes capacity).low
      else
        f.get Register.capacityHigh &&& Capacity.valid = 0 ∨ capacityWord f = capacity := by
  by_cases hspares : q.Spares Register.capacityHigh
  · have due := GaugeWord.due_of_called (w := .capacity) hmah hne hcode hdue
    obtain ⟨hhigh, hlow⟩ :
        (probed q s f).get Register.capacityHigh = (Capacity.bytes capacity).high ∧ _ :=
      GaugeWord.reached hspares due
    have hvalid : ¬ (probed q s f).get Register.capacityHigh &&& Capacity.valid = 0 := by
      rw [hhigh, Capacity.bytes_valid]
      decide
    have hword : capacityWord (probed .none s (probed q s f)) =
        Capacity.word (Capacity.bytes capacity).high
          (if q Register.capacityLow .write = none then (Capacity.bytes capacity).low
            else f.get Register.capacityLow) :=
      (GaugeWord.shown_probed (w := .capacity) hmah hne hcode hfits
        (not_differs_probed q s f)).trans <|
        (if_neg hvalid).trans (congrArg₂ Capacity.word hhigh hlow)
    rw [if_pos (Faults.spares_iff.mp hspares), hword, Capacity.word_high_eq_iff hfits]
    by_cases hwrite : q Register.capacityLow .write = none
    · rw [if_pos hwrite]
      exact ⟨fun _ => .inl hwrite, fun _ => rfl⟩
    · rw [if_neg hwrite]
      exact ⟨.inr, fun h => h.resolve_left hwrite⟩
  · rw [if_neg (mt Faults.spares_iff.mpr hspares)]
    exact GaugeWord.shown_restored_of_not_spares (w := .capacity) hmah hne hcode hfits hspares f

end

/-- Whatever transfers of the words fail in one probe, the next one on a good bus leaves a word that
was due as configured just under these conditions. -/
theorem words_after_failures {c : Charger} {mohm mah : Int32} {resistance capacity : UInt16}
    (hmohm : c.settings.resistance = some mohm) (hmohm₁ : 1 ≤ mohm.toInt)
    (hmohm₂ : mohm.toInt ≤ 8799) (hmah : c.settings.capacity = some mah)
    (hmah₁ : 1 ≤ mah.toInt) (hmah₂ : mah.toInt ≤ 47000)
    (hresistance : Resistance.encode mohm.toInt = .ok resistance)
    (hcapacity : Capacity.encode mah.toInt = .ok capacity) {q : Faults}
    (hq : ∀ r ∉ wordRegisters, q.Spares r) (f : RegisterFile) (hosts : Nat → Bool) :
    let first := c.probe.run MemoryChip.board ⟨f, .always q, hosts⟩
    let second := c.probe.run MemoryChip.board first.board.reliable
    (∃ t, first.outcome = .ok t) ∧ (∃ t, second.outcome = .ok t) ∧
    (c.settings.CurveDiffers f ∨ f.get Register.resistanceHigh &&& Resistance.calibrated = 0 →
      (resistanceWord second.board.registers = resistance ↔
        f.get Register.resistanceHigh &&& Resistance.calibrated = 0 ∨
          q.Spares Register.resistanceHigh ∨ resistanceWord f = resistance)) ∧
    (c.settings.CurveDiffers f ∨ f.get Register.capacityHigh &&& Capacity.valid = 0 →
      (capacityWord second.board.registers = capacity ↔
        if q Register.capacityHigh .read = none ∧ q Register.capacityHigh .write = none then
          q Register.capacityLow .write = none ∨
            f.get Register.capacityLow = (Capacity.bytes capacity).low
        else
          f.get Register.capacityHigh &&& Capacity.valid = 0 ∨ capacityWord f = capacity)) := by
  intro first second
  have hs := Settings.encodable hmohm hresistance hmah hcapacity
  have hmohm₀ : mohm ≠ 0 := by
    rintro rfl
    exact absurd hmohm₁ (by decide)
  have hmah₀ : mah ≠ 0 := by
    rintro rfl
    exact absurd hmah₁ (by decide)
  have hsettings : SparesSettings q :=
    ⟨hq _ (by decide), fun r hr => hq r (setting_not_gauge r hr).1⟩
  have hcurve : SparesCurve q := fun i hi => hq _ (curve_not_word i hi)
  have hlow : c.settings.capacity = some 0 → q Register.capacityLow .read = none := by
    intro hzero
    rw [hmah] at hzero
    exact absurd (Option.some.inj hzero) hmah₀
  obtain ⟨-, t, events, hfirst, -⟩ := probe_spared hs hsettings hcurve hlow f hosts
  obtain ⟨-, t', events', hsecond, -⟩ := probe_reliable hs (probed q c.settings f) hosts
  have hsecond' : second = ⟨.ok t', events',
      ⟨probed .none c.settings (probed q c.settings f), .never, hosts⟩⟩ := by
    rw [← hsecond, show second = c.probe.run MemoryChip.board first.board.reliable from rfl,
      show first = _ from hfirst]
    rfl
  obtain ⟨code, hencode, hfits⟩ := Resistance.encode_range hmohm₁ hmohm₂
  obtain rfl : code = resistance := Except.ok.inj (hencode.symm.trans hresistance)
  obtain ⟨code', hencode', hfits'⟩ := Capacity.encode_range hmah₁ hmah₂
  obtain rfl : code' = capacity := Except.ok.inj (hencode'.symm.trans hcapacity)
  rw [hsecond']
  exact ⟨⟨t, by rw [show first = _ from hfirst]⟩, ⟨t', rfl⟩,
    resistanceWord_restored_iff hmohm hmohm₀ hresistance hfits q,
    capacityWord_restored_iff hmah hmah₀ hcapacity hfits' q⟩

/-! ## Torn words -/

/-- A blank chip with a battery, as the boot after a probe finds it in which writing to one register
failed. -/
def afterTornWrite (r : UInt8) : MemoryChip :=
  ((batteryBoard none 300 4000).probe.run MemoryChip.board
    ⟨.zero, .always (Faults.failsWrite r 5), fun _ => true⟩).board.reliable

theorem failsWrite_spares_others {r : UInt8} (hr : r ∈ wordRegisters) (code : Int) :
    ∀ r' ∉ wordRegisters, (Faults.failsWrite r code).Spares r' := by
  intro r' hr'
  refine Faults.failsWrite_spares code ?_
  rintro rfl
  exact hr' hr

/-- A resistance torn in two is made whole by the next probe. -/
theorem torn_resistance_restored :
    Resistance.encode (300 : Int32).toInt = .ok 0x117 ∧
    (∀ r ∉ wordRegisters, (Faults.failsWrite Register.resistanceLow 5).Spares r) ∧
    resistanceWord ((batteryBoard none 300 4000).probe.run MemoryChip.board
      (afterTornWrite Register.resistanceLow)).board.registers = 0x117 := by
  have hresistance : Resistance.encode (300 : Int32).toInt = .ok 0x117 := by decide
  have hcapacity : Capacity.encode (4000 : Int32).toInt = .ok 0xABB := by decide
  have hq : ∀ r ∉ wordRegisters, (Faults.failsWrite Register.resistanceLow 5).Spares r :=
    failsWrite_spares_others (by decide) 5
  obtain ⟨-, -, hrestored, -⟩ := words_after_failures (c := batteryBoard none 300 4000) rfl
    (by decide) (by decide) rfl (by decide) (by decide) hresistance hcapacity hq .zero fun _ => true
  exact ⟨hresistance, hq, (hrestored (Or.inr (by decide))).mpr (Or.inl (by decide))⟩

/-- A capacity torn in two stays so: its high byte says that one is on record. -/
theorem torn_capacity_stays :
    Capacity.encode (4000 : Int32).toInt = .ok 0xABB ∧
    (∀ r ∉ wordRegisters, (Faults.failsWrite Register.capacityLow 5).Spares r) ∧
    RegisterFile.zero.get Register.capacityHigh &&& Capacity.valid = 0 ∧
    capacityWord ((batteryBoard none 300 4000).probe.run MemoryChip.board
      (afterTornWrite Register.capacityLow)).board.registers = 0xA00 :=
  ⟨by decide, failsWrite_spares_others (by decide) 5, by decide, by decide +kernel⟩

end Bringup.Charger
