import Bringup.Board.Power
import Bringup.Proofs.CalibrationWords
import Bringup.Proofs.PassFailures

/-! Setting up the charger where a word of the gauge is configured that its arithmetic cannot
encode. The charger then ends in a fault on just those chips on which the word would be written;
everything else that can be configured is rejected or brought into range. -/
namespace Bringup

open Bench (MemoryChip)
open Chip

/-- Arithmetic that does not fit its type. -/
def Overflows {α : Type} (outcome : Checked α) : Prop :=
  outcome = .error .mulOverflow ∨ outcome = .error .addOverflow

theorem Overflows.no_value {α : Type} {outcome : Checked α} (h : Overflows outcome) :
    ¬ ∃ x, outcome = .ok x := by
  rintro ⟨x, rfl⟩
  rcases h with fault | fault <;> cases fault

/-- A fault leaves out the rest. -/
theorem Overflows.bind {σ α β : Type} {board : Program.Board σ} {p : Program α} {s : σ}
    (h : Overflows (p.run board s).outcome) (f : α → Program β) :
    Overflows ((p >>= f).run board s).outcome := by
  rw [Program.run_bind, Program.Run.andThen]
  rcases h with fault | fault
  · rw [fault]
    exact .inl rfl
  · rw [fault]
    exact .inr rfl

theorem signedWord_error {overflow : Fault} {n : Int} (h : ¬ (-0x80000000 ≤ n ∧ n < 0x80000000)) :
    Checked.signedWord overflow n = .error overflow := by
  have least : Int32.minValue.toInt = -0x80000000 := rfl
  have greatest : Int32.maxValue.toInt = 0x7FFFFFFF := rfl
  refine if_neg fun within => h ?_
  rw [least, greatest] at within
  omega

namespace Charger

/-! ## Words that can be encoded -/

namespace Resistance

/-- Resistances whose scaled value fits a signed word. -/
def InRange (mohm : Int) : Prop := -214748 ≤ mohm ∧ mohm ≤ 214747

instance (mohm : Int) : Decidable (InRange mohm) := inferInstanceAs (Decidable (_ ∧ _))

theorem encode_of_inRange {mohm : Int} (h : InRange mohm) : ∃ code, encode mohm = .ok code := by
  obtain ⟨least, greatest⟩ := h
  rw [encode, signedWord_ok (by omega) (by omega)]
  change ∃ code, (Checked.signedWord .addOverflow (mohm * 10000 + 5371) >>= _) = .ok code
  rw [signedWord_ok (by omega) (by omega)]
  exact ⟨_, rfl⟩

theorem encode_overflows {mohm : Int} (h : ¬ InRange mohm) : Overflows (encode mohm) := by
  unfold InRange at h
  by_cases scaled : -0x80000000 ≤ mohm * 10000 ∧ mohm * 10000 < 0x80000000
  · rw [encode, signedWord_ok scaled.1 scaled.2]
    change Overflows (Checked.signedWord .addOverflow (mohm * 10000 + 5371) >>= _)
    rw [signedWord_error (by omega)]
    exact .inr rfl
  · rw [encode, signedWord_error scaled]
    exact .inl rfl

end Resistance

namespace Capacity

/-- Capacities whose scaled value fits a signed word. -/
def InRange (mah : Int) : Prop := -2147483 ≤ mah ∧ mah ≤ 2147483

instance (mah : Int) : Decidable (InRange mah) := inferInstanceAs (Decidable (_ ∧ _))

theorem encode_of_inRange {mah : Int} (h : InRange mah) : ∃ code, encode mah = .ok code := by
  obtain ⟨least, greatest⟩ := h
  rw [encode, signedWord_ok (by omega) (by omega)]
  exact ⟨_, rfl⟩

theorem encode_overflows {mah : Int} (h : ¬ InRange mah) : Overflows (encode mah) := by
  unfold InRange at h
  rw [encode, signedWord_error (by omega)]
  exact .inl rfl

end Capacity

/-! ## Words that are encoded -/

/-- The resistance that the group encodes on this chip. It is left as it is where the register
cannot be read, and where the gauge has measured one for a curve that has not changed. -/
def resistanceToEncode (s : Settings) (curveChanged : Bool) (m : MemoryChip) : Option Int32 :=
  s.resistance.filter fun mohm => m.plan 0 Register.resistanceHigh .read = none ∧
    (curveChanged || (mohm != 0 && m.get Register.resistanceHigh &&& Resistance.calibrated == 0))

/-- The capacity that the group encodes on this chip. -/
def capacityToEncode (s : Settings) (curveChanged : Bool) (m : MemoryChip) : Option Int32 :=
  s.capacity.filter fun mah => m.plan 0 Register.capacityHigh .read = none ∧
    (curveChanged || (mah != 0 && m.get Register.capacityHigh &&& Capacity.valid == 0))

/-- A group that encodes a word once its register calls for it ends in the fault of the code. -/
theorem overflows_of_due {α : Type} {m : MemoryChip} {r : UInt8} {code : Checked α}
    (due : UInt8 → Bool) (store : α → Access Outcome) (other : UInt8 → Access Outcome)
    (readable : m.plan 0 r .read = none) (hdue : due (m.get r) = true) (beyond : Overflows code) :
    Overflows (m.run (do
      let high ← device.readByte r
      if due high then do
        let word ← (code : Checked α)
        store word
      else
        other high)).outcome := by
  simp only [MemoryChip.run_bind, m.run_readByte_next device r readable, Program.Run.andThen_ok,
    if_pos hdue]
  rcases beyond with fault | fault
  · rw [fault]
    exact .inl rfl
  · rw [fault]
    exact .inr rfl

namespace GaugeWord

def InRange : GaugeWord → Int → Prop
  | resistance => Resistance.InRange
  | capacity => Capacity.InRange

def toEncode (s : Settings) (changed : Bool) (m : MemoryChip) : GaugeWord → Option Int32
  | resistance => resistanceToEncode s changed m
  | capacity => capacityToEncode s changed m

variable {w : GaugeWord} {s : Settings} {changed : Bool} {m : MemoryChip} {value : Int32}

theorem mem_toEncode : value ∈ w.toEncode s changed m ↔ w.setting s = some value ∧
    m.plan 0 w.high .read = none ∧ w.wanted changed value (m.get w.high) = true := by
  cases w with
  | resistance => exact Option.filter_eq_some_iff.trans (and_congr_right' decide_eq_true_iff)
  | capacity => exact Option.filter_eq_some_iff.trans (and_congr_right' decide_eq_true_iff)

theorem encode_of_inRange {n : Int} (h : w.InRange n) : ∃ code, w.encode n = .ok code := by
  cases w with
  | resistance => exact Resistance.encode_of_inRange h
  | capacity => exact Capacity.encode_of_inRange h

theorem encode_overflows {n : Int} (h : ¬ w.InRange n) : Overflows (w.encode n) := by
  cases w with
  | resistance => exact Resistance.encode_overflows h
  | capacity => exact Capacity.encode_overflows h

/-- Zero is in range, so a value beyond the range leaves nothing to clear. -/
theorem orElse_of_beyond (h : ¬ w.InRange value.toInt) (high : UInt8) :
    w.orElse value high = pure .unchanged := by
  cases w with
  | resistance => rfl
  | capacity =>
    have zero : Capacity.InRange (0 : Int32).toInt := by decide
    have nonzero : value ≠ 0 := by
      rintro rfl
      exact h zero
    rw [orElse, if_neg nonzero]

/-- A group comes to an end where the word that it encodes on this chip is in range. -/
theorem apply_ends (h : ∀ value ∈ w.toEncode s changed m, w.InRange value.toInt) :
    ∃ result, (m.run (w.apply s changed)).outcome = .ok result := by
  by_cases beyond : ∃ value, w.setting s = some value ∧ ¬ w.InRange value.toInt
  · obtain ⟨value, configured, beyond⟩ := beyond
    rw [apply_some configured]
    cases readable : m.plan 0 w.high .read with
    | some code =>
      obtain ⟨line, hl⟩ := m.run_readByte_next_fails device _ readable
      simp [hl]
    | none =>
      have settled : ¬ w.wanted changed value (m.get w.high) = true := fun wanted =>
        beyond (h value (mem_toEncode.mpr ⟨configured, readable, wanted⟩))
      simp only [MemoryChip.run_bind, m.run_readByte_next device _ readable,
        Program.Run.andThen_ok, if_neg settled, orElse_of_beyond beyond]
      exact ⟨_, rfl⟩
  · have encodable : ∀ value ∈ w.setting s, ∃ code, w.encode value.toInt = .ok code := by
      intro value configured
      by_cases fits : w.InRange value.toInt
      · exact encode_of_inRange fits
      · exact absurd ⟨value, configured, fits⟩ beyond
    exact (covers encodable changed).ends m

theorem apply_overflows (h : value ∈ w.toEncode s changed m) (beyond : ¬ w.InRange value.toInt) :
    Overflows (m.run (w.apply s changed)).outcome := by
  obtain ⟨configured, readable, wanted⟩ := mem_toEncode.mp h
  rw [apply_some configured]
  exact overflows_of_due (w.wanted changed value) _ _ readable wanted (encode_overflows beyond)

end GaugeWord

/-! ## The probe -/

/-- The chip as the resistance finds it, and as the capacity does. -/
def beforeResistance (s : Settings) (m : MemoryChip) : MemoryChip := afterGroups (earlyGroups s) m

def beforeCapacity (s : Settings) (m : MemoryChip) : MemoryChip :=
  ((beforeResistance s m).run (applyResistance s (curveChanged s m))).board

/-- Both words that a probe of this chip encodes can be encoded. -/
def WordsFit (s : Settings) (m : MemoryChip) : Prop :=
  (∀ mohm ∈ resistanceToEncode s (curveChanged s m) (beforeResistance s m),
    Resistance.InRange mohm.toInt) ∧
  ∀ mah ∈ capacityToEncode s (curveChanged s m) (beforeCapacity s m), Capacity.InRange mah.toInt

theorem probe_through_of_fit {c : Charger} {m : MemoryChip} (h : WordsFit c.settings m) :
    GoesThrough c.probe (probeGroups c.settings m) m :=
  probe_through_of_ends <| List.forall_mem_cons.mpr ⟨GaugeWord.apply_ends (w := .resistance) h.1,
    List.forall_mem_cons.mpr ⟨GaugeWord.apply_ends (w := .capacity) h.2,
      fun _ hr => absurd hr List.not_mem_nil⟩⟩

/-- A probe that overflows in its words overflows. -/
theorem probe_overflows {c : Charger} {m : MemoryChip}
    (h : ∀ t : Tally, t.total ≤ 11 → Overflows ((t.runGroups (gaugeGroups c.settings
      (curveChanged c.settings m))).run MemoryChip.board (beforeResistance c.settings m)).outcome) :
    Overflows (c.probe.run MemoryChip.board m).outcome := by
  have settings := Footprint.Covers.of_parts (covers_groups c.settings) settings_part
  have before : beforeResistance c.settings m =
      afterGroups [⟨"OCV table", applyCurve c.settings⟩] (afterGroups (groups c.settings) m) :=
    afterGroups_append _ _ m
  obtain ⟨t₁, ht₁, first⟩ :=
    (GoesThrough.runGroups settings (settings_room c.settings) m).outcome_bind _
  have total₁ : t₁.total = 10 := Tally.total_of_runGroups (settings_room c.settings) ht₁
  obtain ⟨curve, hcurve, second⟩ :=
    (GoesThrough.group (g := ⟨"OCV table", applyCurve c.settings⟩)
      ((covers_curve c.settings).ends (afterGroups (groups c.settings) m))).outcome_bind _
  have changed : curveChanged c.settings m = wroteCurve curve := by
    have run : (curveRun c.settings m).outcome = .ok curve := hcurve
    rw [curveChanged, run]
  obtain ⟨t₂, ht₂, third⟩ := (GoesThrough.record (t := t₁) (by omega) "OCV table" curve
    (beforeResistance c.settings m)).outcome_bind _
  have total₂ : t₂.total = t₁.total + 1 := Tally.total_of_record (by omega) ht₂
  rw [probe_eq, first, second, ← before, third, afterGroups_nil, ← changed]
  exact (h t₂ (by omega)).bind _

/-- A pass over both words overflows in one of them. -/
theorem words_overflow {s : Settings} {m : MemoryChip} (h : ¬ WordsFit s m) {t : Tally}
    (room : t.total ≤ 11) :
    Overflows ((t.runGroups (gaugeGroups s (curveChanged s m))).run MemoryChip.board
      (beforeResistance s m)).outcome := by
  change Overflows ((((applyResistance s (curveChanged s m)).run >>= t.record "RDC") >>= fun t =>
    t.runGroups [⟨"battery capacity", applyCapacity s (curveChanged s m)⟩]).run
      MemoryChip.board (beforeResistance s m)).outcome
  rw [bind_assoc]
  by_cases fits : ∀ mohm ∈ resistanceToEncode s (curveChanged s m) (beforeResistance s m),
      Resistance.InRange mohm.toInt
  · obtain ⟨mah, encoded, beyond⟩ : ∃ mah ∈ capacityToEncode s (curveChanged s m)
        (beforeCapacity s m), ¬ Capacity.InRange mah.toInt := by
      have capacity := mt (And.intro fits) h
      simpa using capacity
    obtain ⟨result, -, first⟩ := (GoesThrough.group
      (g := ⟨"RDC", applyResistance s (curveChanged s m)⟩)
      (GaugeWord.apply_ends (w := .resistance) fits)).outcome_bind fun result =>
        t.record "RDC" result >>= fun t =>
          t.runGroups [⟨"battery capacity", applyCapacity s (curveChanged s m)⟩]
    obtain ⟨t₁, -, second⟩ := (GoesThrough.record (t := t) (by omega) "RDC" result
      (beforeCapacity s m)).outcome_bind fun t =>
        t.runGroups [⟨"battery capacity", applyCapacity s (curveChanged s m)⟩]
    have faulted : Overflows ((applyCapacity s (curveChanged s m)).run.run MemoryChip.board
        (beforeCapacity s m)).outcome := GaugeWord.apply_overflows (w := .capacity) encoded beyond
    have here : afterGroups [⟨"RDC", applyResistance s (curveChanged s m)⟩]
        (beforeResistance s m) = beforeCapacity s m := rfl
    rw [first, here, second, afterGroups_nil]
    exact (faulted.bind _).bind _
  · obtain ⟨mohm, encoded, beyond⟩ : ∃ mohm ∈ resistanceToEncode s (curveChanged s m)
        (beforeResistance s m), ¬ Resistance.InRange mohm.toInt := by
      simpa using fits
    have faulted : Overflows ((applyResistance s (curveChanged s m)).run.run MemoryChip.board
        (beforeResistance s m)).outcome :=
      GaugeWord.apply_overflows (w := .resistance) encoded beyond
    exact faulted.bind _

end Charger

namespace Board

open Charger

/-- For every table and chip and whichever transfers fail, setting up the charger goes through all
of its groups and returns the charger with a tally, but for one reason: it ends in an overflow
exactly where it has to encode a word of the gauge that is out of range. -/
theorem initCharger_ends_iff (t : Config.Table) (m : MemoryChip) :
    let s := Settings.ofTable t
    let outcome := ((initCharger t).run MemoryChip.board m).outcome
    ((∃ tally, outcome = .ok (Charger.ofTable t, tally)) ↔ WordsFit s m) ∧
    (GoesThrough (initCharger t) (probeGroups s m) m ↔ WordsFit s m) ∧
    (Overflows outcome ↔ ¬ WordsFit s m) := by
  intro s outcome
  have program : initCharger t =
      (Charger.ofTable t).probe >>= fun tally => pure (Charger.ofTable t, tally) := rfl
  by_cases fits : WordsFit s m
  · have through : GoesThrough (initCharger t) (probeGroups s m) m :=
      (probe_through_of_fit (c := .ofTable t) fits).bind_quiet fun tally _ => .pure _ _
    obtain ⟨tally, -, ends⟩ := (probe_through_of_fit (c := .ofTable t) fits).outcome_bind
      fun tally => pure (Charger.ofTable t, tally)
    have value : outcome = .ok (Charger.ofTable t, tally) := ends
    refine ⟨iff_of_true ⟨tally, value⟩ fits, iff_of_true through fits,
      iff_of_false (fun overflow => overflow.no_value ⟨_, value⟩) (not_not.mpr fits)⟩
  · have overflow : Overflows outcome := by
      rw [show outcome = _ from congrArg (fun p => (Program.run _ p m).outcome) program]
      exact (probe_overflows (c := .ofTable t) fun tally room => words_overflow fits room).bind _
    refine ⟨iff_of_false (fun ⟨tally, value⟩ => overflow.no_value ⟨_, value⟩) fits,
      iff_of_false (fun through => overflow.no_value through.ends) fits, iff_of_true overflow fits⟩

/-- A board that gives the resistance in microohms. -/
def microohmTable : Config.Table := ⟨[⟨Charger.node, [⟨"chg,batrdc", .int 300000⟩]⟩]⟩

/-- There the charger does not come up: the probe stops in the middle of its groups. -/
theorem microohms_overflow :
    let m : MemoryChip := ⟨.zero, .never, fun _ => true⟩
    let outcome := ((initCharger microohmTable).run MemoryChip.board m).outcome
    outcome = .error .mulOverflow ∧ ¬ ∃ result, outcome = .ok result := by
  intro m outcome
  have fault : outcome = .error .mulOverflow := by decide +kernel
  refine ⟨fault, ?_⟩
  rintro ⟨result, value⟩
  rw [fault] at value
  cases value

end Board

end Bringup
