import Bringup.Charger.Probe
import Bringup.Proofs.RegisterBlock
import Bringup.Proofs.Update

/-! What the gauge groups do to the chip: the curve, and the two words that are only written after
the curve changed or while the chip says that it has none. -/
namespace Bringup.Charger

open Bench (Faults MemoryChip RegisterFile)
open Chip

/-! ## Blocks of registers -/

section
variable {q : Faults} {start : UInt8} {bytes : List UInt8}

theorem run_differs (f : RegisterFile) (hosts : Nat → Bool)
    (h : ∀ i < bytes.length, q (start + UInt8.ofNat i) .read = none) :
    ∃ events, MemoryChip.run ⟨f, .always q, hosts⟩ (differs start bytes) =
        ⟨.ok (.ok (decide ¬ f.Shows start bytes)), events, ⟨f, .always q, hosts⟩⟩ ∧
      events.filterMap Event.write? = [] := by
  induction bytes generalizing start with
  | nil => exact ⟨[], by simp [differs, f.shows_nil start], rfl⟩
  | cons byte rest ih =>
    obtain ⟨hfirst, hnext⟩ :=
      RegisterFile.forall_block_succ (P := fun r => q r .read = none) |>.mp h
    have hread := MemoryChip.run_readByte device hfirst f hosts
    by_cases hb : f.get start = byte
    · obtain ⟨events, hrest, hquiet⟩ := ih hnext
      refine ⟨⟨.busRead device.address start 1, .ok #v[f.get start]⟩ :: events, ?_, hquiet⟩
      simp [differs, hread, hb, hrest, RegisterFile.shows_cons]
    · refine ⟨[⟨.busRead device.address start 1, .ok #v[f.get start]⟩], ?_, rfl⟩
      simp [differs, hread, hb, RegisterFile.shows_cons]

theorem run_writeAll (f : RegisterFile) (hosts : Nat → Bool)
    (h : ∀ i < bytes.length, q (start + UInt8.ofNat i) .write = none) :
    ∃ events, MemoryChip.run ⟨f, .always q, hosts⟩ (writeAll start bytes) =
      ⟨.ok (.ok ()), events, ⟨f.setAll start bytes, .always q, hosts⟩⟩ := by
  induction bytes generalizing start f with
  | nil => exact ⟨[], rfl⟩
  | cons byte rest ih =>
    obtain ⟨hfirst, hnext⟩ :=
      RegisterFile.forall_block_succ (P := fun r => q r .write = none) |>.mp h
    have hwrite := MemoryChip.run_writeByte device byte hfirst f hosts
    obtain ⟨events, hrest⟩ := ih (f.set start byte) hnext
    refine ⟨⟨.busWrite device.address start [byte], .ok ()⟩ :: events, ?_⟩
    simp [writeAll, hwrite, hrest, RegisterFile.setAll]

/-- A failing write ends the loop with the bytes before it stored. -/
theorem run_writeAll_fails (f : RegisterFile) (hosts : Nat → Bool) {k : Nat} {code : Int}
    (hk : k < bytes.length) (h : ∀ i < k, q (start + UInt8.ofNat i) .write = none)
    (hfail : q (start + UInt8.ofNat k) .write = some code) :
    ∃ e events, MemoryChip.run ⟨f, .always q, hosts⟩ (writeAll start bytes) =
      ⟨.ok (.error e), events, ⟨f.setAll start (bytes.take k), .always q, hosts⟩⟩ := by
  induction k generalizing start f bytes with
  | zero =>
    obtain ⟨byte, rest, rfl⟩ := List.exists_cons_of_length_pos hk
    have hfirst : q start .write = some code := by simpa using hfail
    obtain ⟨line, hwrite⟩ := MemoryChip.run_writeByte_fails device byte hfirst f hosts
    exact ⟨_, _, by simp [writeAll, hwrite, RegisterFile.setAll]; exact ⟨rfl, rfl⟩⟩
  | succ k ih =>
    obtain ⟨byte, rest, rfl⟩ := List.exists_cons_of_length_pos (Nat.zero_lt_of_lt hk)
    obtain ⟨hfirst, hnext⟩ :=
      RegisterFile.forall_block_succ (P := fun r => q r .write = none) |>.mp h
    rw [RegisterFile.add_ofNat_succ] at hfail
    have hwrite := MemoryChip.run_writeByte device byte hfirst f hosts
    obtain ⟨e, events, hrest⟩ :=
      ih (f.set start byte) (Nat.lt_of_succ_lt_succ hk) hnext hfail
    refine ⟨e, ⟨.busWrite device.address start [byte], .ok ()⟩ :: events, ?_⟩
    simp [writeAll, hwrite, hrest, RegisterFile.setAll]

end

/-! ## The curve -/

/-- The chip shows another curve than the one configured. -/
def Settings.CurveDiffers (s : Settings) (f : RegisterFile) : Prop :=
  ∃ curve ∈ s.curve, ¬ f.Shows Register.curve curve.bytes

instance (s : Settings) (f : RegisterFile) : Decidable (s.CurveDiffers f) :=
  match h : s.curve with
  | none => .isFalse (by simp [Settings.CurveDiffers, h])
  | some curve => decidable_of_iff (¬ f.Shows Register.curve curve.bytes) (by
      simp [Settings.CurveDiffers, h])

/-- What the curve group comes to where no transfer fails. -/
def curveOutcome (s : Settings) (f : RegisterFile) : Outcome :=
  match s.curve with
  | none => .skipped
  | some _ => if s.CurveDiffers f then .written else .unchanged

/-- The registers with the configured curve in place. -/
def withCurve (s : Settings) (f : RegisterFile) : RegisterFile :=
  s.curve.elim f fun curve => f.setAll Register.curve curve.bytes

theorem Curve.fits_file (curve : Curve) : curve.bytes.length ≤ 256 :=
  Nat.le_trans curve.fits (by decide)

theorem curveDiffers_iff {s : Settings} {curve : Curve} (h : s.curve = some curve)
    (f : RegisterFile) : s.CurveDiffers f ↔ ¬ f.Shows Register.curve curve.bytes := by
  simp [Settings.CurveDiffers, h]

theorem curveOutcome_congr {s : Settings} {f g : RegisterFile}
    (h : s.CurveDiffers g ↔ s.CurveDiffers f) : curveOutcome s g = curveOutcome s f := by
  simp only [curveOutcome, h]

theorem curveOutcome_eq_written_iff (s : Settings) (f : RegisterFile) :
    curveOutcome s f = .written ↔ s.CurveDiffers f := by
  unfold curveOutcome
  cases hc : s.curve with
  | none => simp [Settings.CurveDiffers, hc]
  | some curve =>
    by_cases hd : s.CurveDiffers f
    · simp [hd]
    · simp [hd]

theorem withCurve_of_not_differs {s : Settings} {f : RegisterFile} (h : ¬ s.CurveDiffers f) :
    withCurve s f = f := by
  unfold withCurve
  cases hc : s.curve with
  | none => rfl
  | some curve =>
    rw [curveDiffers_iff hc, Decidable.not_not] at h
    exact RegisterFile.setAll_of_shows curve.fits_file h

theorem not_differs_withCurve (s : Settings) (f : RegisterFile) :
    ¬ s.CurveDiffers (withCurve s f) := by
  unfold withCurve
  cases hc : s.curve with
  | none => simp [Settings.CurveDiffers, hc]
  | some curve =>
    rw [curveDiffers_iff hc, Decidable.not_not]
    exact RegisterFile.shows_setAll f Register.curve curve.fits_file

/-- Whether the curve differs is a matter of the curve's registers alone. -/
theorem curveDiffers_congr {s : Settings} {f g : RegisterFile}
    (h : ∀ i < Curve.size, g.get (Register.curve + UInt8.ofNat i) =
      f.get (Register.curve + UInt8.ofNat i)) : s.CurveDiffers g ↔ s.CurveDiffers f := by
  have shows_iff (curve : Curve) :
      g.Shows Register.curve curve.bytes ↔ f.Shows Register.curve curve.bytes := by
    have agree (i : Nat) (hi : i < curve.bytes.length) := h i (Nat.lt_of_lt_of_le hi curve.fits)
    exact ⟨fun hs => hs.congr fun i hi => (agree i hi).symm, fun hs => hs.congr agree⟩
  constructor
  · rintro ⟨curve, hc, hd⟩
    exact ⟨curve, hc, mt (shows_iff curve).mpr hd⟩
  · rintro ⟨curve, hc, hd⟩
    exact ⟨curve, hc, mt (shows_iff curve).mp hd⟩

/-- Registers outside of the curve keep what they hold. -/
theorem get_withCurve_of_le (s : Settings) (f : RegisterFile) {r : UInt8}
    (h : Curve.size ≤ (r - Register.curve).toNat) : (withCurve s f).get r = f.get r := by
  unfold withCurve
  cases s.curve with
  | none => rfl
  | some curve =>
    exact RegisterFile.get_setAll_of_le curve.fits_file (Nat.le_trans curve.fits h)

/-- Every transfer of the curve goes through. -/
def SparesCurve (q : Faults) : Prop :=
  ∀ i < Curve.size, q.Spares (Register.curve + UInt8.ofNat i)

section
variable {q : Faults}

theorem run_applyCurve (s : Settings) (h : SparesCurve q) (f : RegisterFile)
    (hosts : Nat → Bool) :
    ∃ events, MemoryChip.run ⟨f, .always q, hosts⟩ (applyCurve s) =
        ⟨.ok (.ok (curveOutcome s f)), events, ⟨withCurve s f, .always q, hosts⟩⟩ ∧
      (¬ s.CurveDiffers f → events.filterMap Event.write? = []) := by
  unfold applyCurve curveOutcome withCurve
  cases hc : s.curve with
  | none => exact ⟨[], rfl, fun _ => rfl⟩
  | some curve =>
    have hd := curveDiffers_iff hc f
    obtain ⟨looks, hdiffers, hquiet⟩ := run_differs f hosts
      fun i hi => h i (Nat.lt_of_lt_of_le hi curve.fits) .read
    by_cases hs : f.Shows Register.curve curve.bytes
    · refine ⟨looks, ?_, fun _ => hquiet⟩
      rw [Option.elim_some, RegisterFile.setAll_of_shows curve.fits_file hs]
      simp [hdiffers, hd, hs]
    · obtain ⟨stores, hwrite⟩ := run_writeAll f hosts
        fun i hi => h i (Nat.lt_of_lt_of_le hi curve.fits) .write
      let line : Event :=
        ⟨.log ⟨.info, s!"AXP228: OCV table rewritten ({curve.bytes.length} entries)"⟩, ()⟩
      refine ⟨looks ++ (stores ++ [line]), ?_, fun hn => absurd (hd.mpr hs) hn⟩
      simp [hdiffers, hwrite, hd, hs]
      exact ⟨rfl, rfl⟩

/-- A rewrite that fails at its byte `k` leaves the bytes before it in place. -/
theorem run_applyCurve_fails {s : Settings} {curve : Curve} (hc : s.curve = some curve)
    {f : RegisterFile} (hd : s.CurveDiffers f) (hosts : Nat → Bool) {k : Nat} {code : Int}
    (hk : k < curve.bytes.length)
    (reads : ∀ i < Curve.size, q (Register.curve + UInt8.ofNat i) .read = none)
    (writes : ∀ i < k, q (Register.curve + UInt8.ofNat i) .write = none)
    (fails : q (Register.curve + UInt8.ofNat k) .write = some code) :
    ∃ e events, MemoryChip.run ⟨f, .always q, hosts⟩ (applyCurve s) =
      ⟨.ok (.error e), events,
        ⟨f.setAll Register.curve (curve.bytes.take k), .always q, hosts⟩⟩ := by
  have hs := (curveDiffers_iff hc f).mp hd
  obtain ⟨looks, hdiffers, -⟩ := run_differs f hosts
    fun i hi => reads i (Nat.lt_of_lt_of_le hi curve.fits)
  obtain ⟨e, stores, hwrite⟩ := run_writeAll_fails f hosts hk writes fails
  refine ⟨e, looks ++ stores, ?_⟩
  simp [applyCurve, hc, hdiffers, hs, hwrite]

end

/-! ## The words -/

/-- The resistance and the capacity have codes, if they are configured at all. -/
structure Settings.Encodable (s : Settings) : Prop where
  resistance : ∀ mohm ∈ s.resistance, ∃ code, Resistance.encode mohm.toInt = .ok code
  capacity : ∀ mah ∈ s.capacity, ∃ code, Capacity.encode mah.toInt = .ok code

theorem Settings.encodable {s : Settings} {mohm mah : Int32} {resistance capacity : UInt16}
    (hmohm : s.resistance = some mohm)
    (hresistance : Resistance.encode mohm.toInt = .ok resistance)
    (hmah : s.capacity = some mah) (hcapacity : Capacity.encode mah.toInt = .ok capacity) :
    s.Encodable where
  resistance x hx := by
    rw [hmohm] at hx
    obtain rfl := Option.some.inj hx
    exact ⟨resistance, hresistance⟩
  capacity x hx := by
    rw [hmah] at hx
    obtain rfl := Option.some.inj hx
    exact ⟨capacity, hcapacity⟩

/-- The resistance to be written: the configured one after the curve changed, and a configured one
other than zero while the gauge has not measured its own. -/
def resistanceDue (s : Settings) (curveChanged : Bool) (f : RegisterFile) : Option BytePair := do
  let mohm ← s.resistance
  if curveChanged ∨ mohm ≠ 0 ∧ f.get Register.resistanceHigh &&& Resistance.calibrated = 0 then
    (Resistance.encode mohm.toInt).toOption.map Resistance.bytes
  else
    none

/-- The capacity to be written: the configured one after the curve changed, and a configured one
other than zero while none is on record. A configured zero clears what is there. -/
def capacityDue (s : Settings) (curveChanged : Bool) (f : RegisterFile) : Option BytePair := do
  let mah ← s.capacity
  if curveChanged ∨ mah ≠ 0 ∧ f.get Register.capacityHigh &&& Capacity.valid = 0 then
    (Capacity.encode mah.toInt).toOption.map Capacity.bytes
  else if mah = 0 ∧ (f.get Register.capacityHigh ≠ 0 ∨ f.get Register.capacityLow ≠ 0) then
    some ⟨0, 0⟩
  else
    none

/-! ## What both words share -/

/-- The words that calibrate the gauge. -/
inductive GaugeWord where
  | resistance
  | capacity
  deriving DecidableEq

namespace GaugeWord

def high : GaugeWord → UInt8
  | resistance => Register.resistanceHigh
  | capacity => Register.capacityHigh

def low : GaugeWord → UInt8
  | resistance => Register.resistanceLow
  | capacity => Register.capacityLow

/-- Set in the high byte while the gauge has a word that it keeps. -/
def flag : GaugeWord → UInt8
  | resistance => Resistance.calibrated
  | capacity => Capacity.valid

def setting (s : Settings) : GaugeWord → Option Int32
  | resistance => s.resistance
  | capacity => s.capacity

def encode : GaugeWord → Int → Checked UInt16
  | resistance => Resistance.encode
  | capacity => Capacity.encode

def bytes : GaugeWord → UInt16 → BytePair
  | resistance => Resistance.bytes
  | capacity => Capacity.bytes

def due (s : Settings) (changed : Bool) (f : RegisterFile) : GaugeWord → Option BytePair
  | resistance => resistanceDue s changed f
  | capacity => capacityDue s changed f

def apply (s : Settings) (changed : Bool) : GaugeWord → Access Outcome
  | resistance => applyResistance s changed
  | capacity => applyCapacity s changed

/-- A configured value is to be encoded, by what the high byte shows. -/
def wanted (w : GaugeWord) (changed : Bool) (value : Int32) (high : UInt8) : Bool :=
  changed || (value != 0 && high &&& w.flag == 0)

/-- Where no value is wanted, a configured capacity of zero is still cleared. -/
def orElse (value : Int32) (high : UInt8) : GaugeWord → Access Outcome
  | resistance => return .unchanged
  | capacity =>
      if value = 0 then do
        let low ← device.readByte Register.capacityLow
        if high ≠ 0 ∨ low ≠ 0 then
          writePair Register.capacityHigh Register.capacityLow ⟨0, 0⟩
          return .written
        else
          return .unchanged
      else
        return .unchanged

def dueElse (value : Int32) (f : RegisterFile) : GaugeWord → Option BytePair
  | resistance => none
  | capacity =>
      if value = 0 ∧ (f.get Register.capacityHigh ≠ 0 ∨ f.get Register.capacityLow ≠ 0) then
        some ⟨0, 0⟩
      else none

section
variable {w : GaugeWord} {s : Settings} {changed : Bool} {value : Int32}

theorem apply_none (h : w.setting s = none) : w.apply s changed = pure .skipped := by
  cases w with
  | resistance =>
    have configured : s.resistance = none := h
    simp [apply, applyResistance, configured]
  | capacity =>
    have configured : s.capacity = none := h
    simp [apply, applyCapacity, configured]

theorem due_none (h : w.setting s = none) (f : RegisterFile) : w.due s changed f = none := by
  cases w with
  | resistance =>
    have configured : s.resistance = none := h
    simp [due, resistanceDue, configured]
  | capacity =>
    have configured : s.capacity = none := h
    simp [due, capacityDue, configured]

/-- The groups of both words take the same course while a value is wanted. -/
theorem apply_some (h : w.setting s = some value) : w.apply s changed = (do
    let shown ← device.readByte w.high
    if w.wanted changed value shown then do
      let code ← (w.encode value.toInt : Checked _)
      writePair w.high w.low (w.bytes code)
      return .written
    else
      w.orElse value shown) := by
  cases w with
  | resistance =>
    have configured : s.resistance = some value := h
    simp only [apply, applyResistance, configured]
    rfl
  | capacity =>
    have configured : s.capacity = some value := h
    simp only [apply, applyCapacity, configured]
    rfl

theorem due_some (h : w.setting s = some value) (f : RegisterFile) : w.due s changed f =
    if w.wanted changed value (f.get w.high) then (w.encode value.toInt).toOption.map w.bytes
    else w.dueElse value f := by
  cases w with
  | resistance =>
    have configured : s.resistance = some value := h
    simp [due, resistanceDue, configured, wanted, high, flag, encode, bytes, dueElse]
  | capacity =>
    have configured : s.capacity = some value := h
    simp [due, capacityDue, configured, wanted, high, flag, encode, bytes, dueElse]

/-- After the curve changed, a configured word is due whatever the chip shows. -/
theorem due_changed {code : UInt16} (h : w.setting s = some value)
    (hcode : w.encode value.toInt = .ok code) (f : RegisterFile) :
    w.due s true f = some (w.bytes code) := by
  simp [due_some h, wanted, hcode, Except.toOption]

/-- While the curve stays, a value other than zero is due to a gauge that has none. -/
theorem due_unchanged {code : UInt16} (h : w.setting s = some value)
    (hcode : w.encode value.toInt = .ok code) (hne : value ≠ 0) (f : RegisterFile) :
    w.due s false f = if f.get w.high &&& w.flag = 0 then some (w.bytes code) else none := by
  have nothing : w.dueElse value f = none := by
    cases w with
    | resistance => rfl
    | capacity => simp [dueElse, hne]
  simp [due_some h, wanted, hcode, Except.toOption, hne, nothing]

/-- What is due is a matter of the word's own registers. -/
theorem due_congr {f g : RegisterFile} (hhigh : g.get w.high = f.get w.high)
    (hlow : g.get w.low = f.get w.low) : w.due s changed g = w.due s changed f := by
  cases w with
  | resistance =>
    have same : g.get Register.resistanceHigh = f.get Register.resistanceHigh := hhigh
    simp only [due, resistanceDue, same]
  | capacity =>
    have same : g.get Register.capacityHigh = f.get Register.capacityHigh := hhigh
    have same' : g.get Register.capacityLow = f.get Register.capacityLow := hlow
    simp only [due, capacityDue, same, same']

theorem encodable (hs : s.Encodable) (h : w.setting s = some value) :
    ∃ code, w.encode value.toInt = .ok code := by
  cases w with
  | resistance => exact hs.resistance value h
  | capacity => exact hs.capacity value h

end

end GaugeWord

theorem capacityDue_zero {s : Settings} (h : s.capacity = some 0) (f : RegisterFile) :
    capacityDue s false f =
      if f.get Register.capacityHigh ≠ 0 ∨ f.get Register.capacityLow ≠ 0
      then some ⟨0, 0⟩ else none := by
  simp [capacityDue, h]

/-! ## Storing a word -/

/-- Registers after a word was stored byte by byte, as far as the bus let it through. -/
def storePair (q : Faults) (high low : UInt8) (pair : BytePair) (f : RegisterFile) : RegisterFile :=
  if q high .write = none then
    if q low .write = none then (f.set high pair.high).set low pair.low else f.set high pair.high
  else
    f

/-- Registers after a word was stored that was due. -/
def storeDue (q : Faults) (high low : UInt8) (due : Option BytePair) (f : RegisterFile) :
    RegisterFile :=
  due.elim f (storePair q high low · f)

def dueWrites (high low : UInt8) (due : Option BytePair) : List (UInt8 × List UInt8) :=
  due.elim [] fun pair => [(high, [pair.high]), (low, [pair.low])]

/-- Without a fault, the access stores the word that is due, as far as the bus lets it, and
nothing else. -/
def Stores (q : Faults) (high low : UInt8) (due : Option BytePair) (f : RegisterFile)
    (hosts : Nat → Bool) {α : Type} (p : Access α) : Prop :=
  ∃ result events, MemoryChip.run ⟨f, .always q, hosts⟩ p =
      ⟨.ok result, events, ⟨storeDue q high low due f, .always q, hosts⟩⟩ ∧
    (q.Spares high → q.Spares low →
      events.filterMap Event.write? = dueWrites high low due)

section
variable {q : Faults} {high low : UInt8} {f : RegisterFile} {hosts : Nat → Bool} {α β : Type}

theorem stores_pure (a : α) : Stores q high low none f hosts (pure a : Access α) :=
  ⟨.ok a, [], rfl, fun _ _ => rfl⟩

theorem stores_pair (pair : BytePair) :
    Stores q high low (some pair) f hosts (writePair high low pair) := by
  unfold Stores storeDue storePair
  rw [Option.elim_some]
  cases hhigh : q high .write with
  | some code =>
    obtain ⟨line, hw⟩ := MemoryChip.run_writeByte_fails device pair.high hhigh f hosts
    refine ⟨_, _, by simp [writePair, hw]; exact ⟨rfl, rfl⟩, fun h => ?_⟩
    exact absurd (h .write) (by simp [hhigh])
  | none =>
    have hw := MemoryChip.run_writeByte device pair.high hhigh f hosts
    cases hlow : q low .write with
    | some code =>
      obtain ⟨line, hl⟩ :=
        MemoryChip.run_writeByte_fails device pair.low hlow (f.set high pair.high) hosts
      refine ⟨_, _, by simp [writePair, hw, hl]; exact ⟨rfl, rfl⟩, fun _ h => ?_⟩
      exact absurd (h .write) (by simp [hlow])
    | none =>
      have hl := MemoryChip.run_writeByte device pair.low hlow (f.set high pair.high) hosts
      exact ⟨_, _, by simp [writePair, hw, hl]; exact ⟨rfl, rfl⟩, fun _ _ => rfl⟩

theorem Stores.map {p : Access α} {due : Option BytePair} (h : Stores q high low due f hosts p)
    (g : α → β) : Stores q high low due f hosts (g <$> p) := by
  obtain ⟨result, events, hrun, hwrites⟩ := h
  exact ⟨result.map g, events, by simp [hrun, Except.map], hwrites⟩

/-- Looking at a register first adds no write. -/
theorem Stores.after_read {r : UInt8} {k : UInt8 → Access α} {due : Option BytePair}
    (hr : q r .read = none) (h : Stores q high low due f hosts (k (f.get r))) :
    Stores q high low due f hosts (device.readByte r >>= k) := by
  obtain ⟨result, events, hrun, hwrites⟩ := h
  have hread := MemoryChip.run_readByte device hr f hosts
  exact ⟨result, ⟨.busRead device.address r 1, .ok #v[f.get r]⟩ :: events,
    by simp [hread, hrun], hwrites⟩

/-- What is due counts only once the bus let the first look through. -/
def seen (q : Faults) (high : UInt8) (due : Option BytePair) : Option BytePair :=
  if q high .read = none then due else none

theorem Stores.after_look {k : UInt8 → Access α} {due : Option BytePair}
    (h : Stores q high low due f hosts (k (f.get high))) :
    Stores q high low (seen q high due) f hosts (device.readByte high >>= k) := by
  unfold seen
  cases hread : q high .read with
  | none =>
    rw [if_pos rfl]
    exact h.after_read hread
  | some code =>
    obtain ⟨line, hrun⟩ := MemoryChip.run_readByte_fails device hread f hosts
    rw [if_neg (by simp)]
    refine ⟨.error (.bus device.address high .read code),
      [⟨.busRead device.address high 1, .error code⟩, ⟨.log line, ()⟩], ?_, fun _ _ => rfl⟩
    simp [hrun]
    rfl

end

/-- Each group stores the word that is due. Only a configured zero makes it look at the low byte. -/
theorem GaugeWord.apply_stores {q : Faults} {s : Settings} (w : GaugeWord) (hs : s.Encodable)
    (changed : Bool) (hlow : s.capacity = some 0 → q Register.capacityLow .read = none)
    (f : RegisterFile) (hosts : Nat → Bool) :
    Stores q w.high w.low (seen q w.high (w.due s changed f)) f hosts (w.apply s changed) := by
  cases configured : w.setting s with
  | none =>
    rw [apply_none configured, due_none configured, seen, ite_self]
    exact stores_pure _
  | some value =>
    obtain ⟨code, hcode⟩ := encodable hs configured
    rw [apply_some configured, due_some configured]
    refine .after_look ?_
    split
    · rw [hcode]
      exact (stores_pair (w.bytes code)).map _
    · cases w with
      | resistance => exact stores_pure _
      | capacity =>
        by_cases hzero : value = 0
        · subst hzero
          simp only [dueElse, orElse, high, true_and, ↓reduceIte, bind_pure_comp]
          refine .after_read (hlow configured) ?_
          split
          · exact (stores_pair ⟨0, 0⟩).map _
          · exact stores_pure _
        · simp only [dueElse, orElse, hzero, false_and, ↓reduceIte]
          exact stores_pure _

/-! ## Both words -/

theorem get_storeDue_of_ne {q : Faults} {high low r : UInt8} (due : Option BytePair)
    (f : RegisterFile) (hhigh : high ≠ r) (hlow : low ≠ r) :
    (storeDue q high low due f).get r = f.get r := by
  cases due with
  | none => rfl
  | some pair =>
    rw [storeDue, Option.elim_some, storePair]
    split
    · split
      · rw [RegisterFile.get_set_of_ne _ _ hlow, RegisterFile.get_set_of_ne _ _ hhigh]
      · rw [RegisterFile.get_set_of_ne _ _ hhigh]
    · rfl

/-- Whatever is stored, a register that was the same before is the same afterwards. -/
theorem get_storeDue_congr {q : Faults} {high low r : UInt8} (due : Option BytePair)
    {f g : RegisterFile} (h : g.get r = f.get r) :
    (storeDue q high low due g).get r = (storeDue q high low due f).get r := by
  cases due with
  | none => exact h
  | some pair =>
    simp only [storeDue, Option.elim_some, storePair]
    split
    · split
      · simp only [RegisterFile.get_set, h]
      · simp only [RegisterFile.get_set, h]
    · exact h

theorem get_storeDue_high {q : Faults} {high low : UInt8} (hhigh : q.Spares high)
    (hlow : q.Spares low) (hne : low ≠ high) (due : Option BytePair) (f : RegisterFile) :
    (storeDue q high low due f).get high = due.elim (f.get high) BytePair.high := by
  cases due with
  | none => rfl
  | some pair =>
    rw [storeDue, Option.elim_some, Option.elim_some, storePair, if_pos (hhigh .write),
      if_pos (hlow .write), RegisterFile.get_set_of_ne _ _ hne, RegisterFile.get_set_self]

theorem get_storeDue_low {q : Faults} {high low : UInt8} (hhigh : q.Spares high)
    (hlow : q.Spares low) (due : Option BytePair) (f : RegisterFile) :
    (storeDue q high low due f).get low = due.elim (f.get low) BytePair.low := by
  cases due with
  | none => rfl
  | some pair =>
    rw [storeDue, Option.elim_some, Option.elim_some, storePair, if_pos (hhigh .write),
      if_pos (hlow .write), RegisterFile.get_set_self]

/-- A group whose first register is out of reach stores nothing. -/
theorem storeDue_of_not_spares {q : Faults} {high low : UInt8} (h : ¬ q.Spares high)
    (due : Option BytePair) (f : RegisterFile) :
    storeDue q high low (seen q high due) f = f := by
  unfold seen
  by_cases hread : q high .read = none
  · have hwrite : ¬ q high .write = none := fun hwrite => h (Faults.spares_iff.mpr ⟨hread, hwrite⟩)
    rw [if_pos hread]
    cases due with
    | none => rfl
    | some pair => exact if_neg hwrite
  · rw [if_neg hread]
    rfl

/-- Where the first register is in reach, the second is written or left as it was. -/
theorem storeDue_of_spares {q : Faults} {high low : UInt8} (h : q.Spares high) (pair : BytePair)
    (f : RegisterFile) : storeDue q high low (seen q high (some pair)) f =
      if q low .write = none then (f.set high pair.high).set low pair.low
      else f.set high pair.high := by
  rw [seen, if_pos (h .read), storeDue, Option.elim_some, storePair, if_pos (h .write)]

/-- Registers after both words were seen to. -/
def withWords (q : Faults) (s : Settings) (changed : Bool) (f : RegisterFile) : RegisterFile :=
  storeDue q Register.capacityHigh Register.capacityLow
    (seen q Register.capacityHigh (capacityDue s changed f))
    (storeDue q Register.resistanceHigh Register.resistanceLow
      (seen q Register.resistanceHigh (resistanceDue s changed f)) f)

/-- The registers that hold the words. -/
def wordRegisters : List UInt8 := [
  Register.resistanceHigh, Register.resistanceLow, Register.capacityHigh, Register.capacityLow]

theorem get_withWords_of_not_mem {q : Faults} (s : Settings) (changed : Bool) (f : RegisterFile)
    {r : UInt8} (h : r ∉ wordRegisters) : (withWords q s changed f).get r = f.get r := by
  simp only [wordRegisters, List.mem_cons, List.not_mem_nil, or_false, not_or] at h
  obtain ⟨h₁, h₂, h₃, h₄⟩ := h
  rw [withWords, get_storeDue_of_ne _ _ (Ne.symm h₃) (Ne.symm h₄),
    get_storeDue_of_ne _ _ (Ne.symm h₁) (Ne.symm h₂)]

/-- The registers of a word. -/
def GaugeWord.registers (w : GaugeWord) : List UInt8 := [w.high, w.low]

theorem GaugeWord.low_ne_high (w : GaugeWord) : w.low ≠ w.high := by
  cases w with
  | resistance => decide
  | capacity => decide

theorem GaugeWord.mem_wordRegisters {w : GaugeWord} {r : UInt8} (h : r ∈ w.registers) :
    r ∈ wordRegisters := by
  cases w with
  | resistance => exact List.mem_append_left GaugeWord.capacity.registers h
  | capacity => exact List.mem_append_right GaugeWord.resistance.registers h

section
variable (q : Faults) (s : Settings) (changed : Bool) (f : RegisterFile)

/-- Each word's registers come out as if it were the only word. -/
theorem get_withWords {w : GaugeWord} {r : UInt8} (h : r ∈ w.registers) :
    (withWords q s changed f).get r =
      (storeDue q w.high w.low (seen q w.high (w.due s changed f)) f).get r := by
  cases w with
  | resistance =>
    have hhigh : Register.capacityHigh ∉ GaugeWord.resistance.registers := by decide
    have hlow : Register.capacityLow ∉ GaugeWord.resistance.registers := by decide
    exact get_storeDue_of_ne _ _ (fun same => hhigh (same ▸ h)) fun same => hlow (same ▸ h)
  | capacity =>
    have hhigh : Register.resistanceHigh ∉ GaugeWord.capacity.registers := by decide
    have hlow : Register.resistanceLow ∉ GaugeWord.capacity.registers := by decide
    exact get_storeDue_congr _
      (get_storeDue_of_ne _ _ (fun same => hhigh (same ▸ h)) fun same => hlow (same ▸ h))

end

theorem seen_of_spares {q : Faults} (hq : ∀ r ∈ wordRegisters, q.Spares r) (w : GaugeWord)
    (due : Option BytePair) : seen q w.high due = due :=
  if_pos (hq _ (w.mem_wordRegisters (.head _)) .read)

/-- Both groups of the gauge end without a fault, and write no more than is due. -/
theorem gauge_pass {q : Faults} {s : Settings} (hs : s.Encodable) (changed : Bool)
    (hlow : s.capacity = some 0 → q Register.capacityLow .read = none) (f : RegisterFile)
    (hosts : Nat → Bool) :
    ∃ results writes, Passes (gaugeGroups s changed) ⟨f, .always q, hosts⟩ results writes
        ⟨withWords q s changed f, .always q, hosts⟩ ∧
      ((∀ r ∈ wordRegisters, q.Spares r) → writes =
        dueWrites Register.resistanceHigh Register.resistanceLow (resistanceDue s changed f) ++
        dueWrites Register.capacityHigh Register.capacityLow (capacityDue s changed f)) := by
  obtain ⟨first, looks, hfirst, hlooks⟩ :=
    GaugeWord.resistance.apply_stores (q := q) hs changed hlow f hosts
  generalize hg : storeDue q GaugeWord.resistance.high GaugeWord.resistance.low
    (seen q GaugeWord.resistance.high (GaugeWord.resistance.due s changed f)) f = g at hfirst
  have hdue : GaugeWord.capacity.due s changed g = GaugeWord.capacity.due s changed f := by
    rw [← hg]
    exact GaugeWord.due_congr (get_storeDue_of_ne _ _ (by decide) (by decide))
      (get_storeDue_of_ne _ _ (by decide) (by decide))
  obtain ⟨second, others, hsecond, hothers⟩ :=
    GaugeWord.capacity.apply_stores hs changed hlow g hosts
  rw [hdue] at hsecond hothers
  have hpass := Passes.cons (g := ⟨"RDC", applyResistance s changed⟩) hfirst
    (.cons (g := ⟨"battery capacity", applyCapacity s changed⟩) hsecond (.nil _))
  have after : withWords q s changed f = storeDue q GaugeWord.capacity.high
      GaugeWord.capacity.low (seen q GaugeWord.capacity.high (GaugeWord.capacity.due s changed f))
      g := by rw [← hg]; rfl
  rw [List.append_nil] at hpass
  rw [after]
  refine ⟨_, _, hpass, fun hq => ?_⟩
  rw [hlooks (hq _ (by decide)) (hq _ (by decide)), hothers (hq _ (by decide)) (hq _ (by decide)),
    seen_of_spares hq, seen_of_spares hq]
  rfl

end Bringup.Charger
