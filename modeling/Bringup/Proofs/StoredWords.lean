import Bringup.Proofs.ClosedAccess
import Bringup.Proofs.Moments
import Bringup.Proofs.WordFailures
import Bringup.Proofs.WordOverflow

/-! The words of the gauge as a probe stores them. The registers have room for thirteen bits of a
resistance and for fifteen of a capacity. A code that is longer is cut to that, and so is one below
zero; the word is then one of another battery. -/
namespace Bringup

open Bench (MemoryChip RegisterFile)
open Chip

/-! ## Writes that went through -/

/-- A write is of one byte, and of one that may stand in its register. -/
def Request.Writes (ok : UInt8 → UInt8 → Prop) : Request → Prop
  | .busWrite _ start bytes => ∃ byte, bytes = [byte] ∧ ok start byte
  | _ => True

/-- The register that a write has gone through to. -/
def Event.reached? : Event → Option UInt8
  | ⟨.busWrite _ start _, .ok ()⟩ => some start
  | _ => none

section
variable {ok : UInt8 → UInt8 → Prop} {r : UInt8} {f : RegisterFile}

theorem Event.get_after {e : Event} (h : e.request.Writes ok)
    (reached : ok r (f.get r) ∨ e.reached? = some r) : ok r ((e.after f).get r) := by
  obtain ⟨request, answer⟩ := e
  cases request with
  | busWrite address start bytes =>
    cases answer with
    | error code => exact reached.resolve_right nofun
    | ok =>
      obtain ⟨byte, rfl, may⟩ := h
      change ok r ((f.set start byte).get r)
      by_cases here : start = r
      · subst here
        rwa [RegisterFile.get_set_self]
      · rw [RegisterFile.get_set_of_ne _ _ here]
        exact reached.resolve_right fun same => here (Option.some.inj same)
  | _ => exact reached.resolve_right nofun

/-- A register that was written to holds a byte that may stand in it. -/
theorem get_replay {events : List Event} (h : ∀ e ∈ events, e.request.Writes ok)
    (reached : ok r (f.get r) ∨ r ∈ events.filterMap Event.reached?) :
    ok r ((replay f events).get r) := by
  induction events generalizing f with
  | nil => exact reached.resolve_right List.not_mem_nil
  | cons e events ih =>
    obtain ⟨first, rest⟩ := List.forall_mem_cons.mp h
    refine ih rest ?_
    rcases reached with held | reached
    · exact .inl (Event.get_after first (.inl held))
    · obtain ⟨e', he', hr⟩ := List.mem_filterMap.mp reached
      rcases List.mem_cons.mp he' with rfl | he'
      · exact .inl (Event.get_after first (.inr hr))
      · exact .inr (List.mem_filterMap.mpr ⟨e', he', hr⟩)

theorem Program.Asks.get_run {α : Type} {p : Program α} (h : p.Asks (Request.Writes ok))
    {m : MemoryChip}
    (reached : r ∈ (p.run MemoryChip.board m).events.filterMap Event.reached?) :
    ok r ((p.run MemoryChip.board m).board.registers.get r) := by
  rw [Program.run_registers]
  exact get_replay (h.events MemoryChip.board m) (.inr reached)

end

/-! ## Passes -/

namespace Chip.Tally

variable {ok : Request → Prop}

theorem asks_record (logged : ∀ entry, ok (.log entry)) (t : Tally) (group : String)
    (result : Except ChipError Outcome) : (t.record group result).Asks ok := by
  have counted {α : Type} (c : Checked UInt8) (f : UInt8 → Program α)
      (h : ∀ n, (f n).Asks ok) : ((liftM c : Program UInt8) >>= f).Asks ok :=
    (Program.Asks.checked c).bind h
  have line (level : Log.Level) (text : String) : (Program.log level text).Asks ok :=
    ⟨logged _, fun _ => trivial⟩
  match result with
  | .ok .written | .ok .unchanged | .ok .skipped => exact counted _ _ fun _ => trivial
  | .error (.incomplete what) => exact (line _ _).bind fun _ => counted _ _ fun _ => trivial
  | .error (.bus ..) => exact (line _ _).bind fun _ => counted _ _ fun _ => trivial
  | .error .invalidInput => exact (line _ _).bind fun _ => counted _ _ fun _ => trivial

theorem asks_runGroups (logged : ∀ entry, ok (.log entry)) {gs : List Group}
    (h : ∀ g ∈ gs, g.action.run.Asks ok) (t : Tally) : (t.runGroups gs).Asks ok := by
  induction gs generalizing t with
  | nil => trivial
  | cons g gs ih =>
    obtain ⟨hg, hgs⟩ := List.forall_mem_cons.mp h
    change ((g.action.run >>= t.record g.name) >>= fun t => t.runGroups gs).Asks ok
    exact (hg.bind fun _ => asks_record logged t _ _).bind fun t => ih hgs t

end Chip.Tally

namespace Charger

/-! ## The probe -/

/-- The byte may stand in the register, if that is one of a word. The valid bit of the capacity says
nothing about the word. -/
structure MayStand (s : Settings) (r byte : UInt8) : Prop where
  resistanceHigh : r = Register.resistanceHigh → ∃ mohm ∈ s.resistance,
    ∃ code, Resistance.encode mohm.toInt = .ok code ∧ byte = (Resistance.bytes code).high
  resistanceLow : r = Register.resistanceLow → ∃ mohm ∈ s.resistance,
    ∃ code, Resistance.encode mohm.toInt = .ok code ∧ byte = (Resistance.bytes code).low
  capacityHigh : r = Register.capacityHigh → ∃ mah ∈ s.capacity,
    ∃ code, Capacity.encode mah.toInt = .ok code ∧
      byte &&& ~~~Capacity.valid = (Capacity.bytes code).high &&& ~~~Capacity.valid
  capacityLow : r = Register.capacityLow → ∃ mah ∈ s.capacity,
    ∃ code, Capacity.encode mah.toInt = .ok code ∧ byte = (Capacity.bytes code).low

section
variable (s : Settings)

theorem mayStand_elsewhere {r : UInt8} (h : r ∉ wordRegisters) (byte : UInt8) :
    MayStand s r byte := by
  simp only [wordRegisters, List.mem_cons, List.not_mem_nil, or_false, not_or] at h
  obtain ⟨h₁, h₂, h₃, h₄⟩ := h
  exact ⟨fun same => absurd same h₁, fun same => absurd same h₂, fun same => absurd same h₃,
    fun same => absurd same h₄⟩

/-- Only bytes that may stand there are written to a word. -/
abbrev Keeps {α : Type} (p : Program α) : Prop := p.Asks (Request.Writes (MayStand s))

theorem keeps_writeByte {r byte : UInt8} (h : MayStand s r byte) :
    Keeps s (device.writeByte r byte).run :=
  (device.writeByte_only (fun _ => trivial) ⟨byte, rfl, h⟩).asks

/-- Apart from the writes to the words there is nothing to mind. -/
theorem keeps_closed : Closed device (· ∉ wordRegisters) fun p => Keeps s p.run where
  returns _ := trivial
  throws _ := trivial
  andThen := Program.Asks.andThen
  checked {_ _ c _} rest := by
    cases c with
    | ok x => exact rest x rfl
    | error cause => trivial
  offBus h := by
    refine (h.mono fun r off => ?_).asks.lift
    cases r with
    | busRead | busWrite => exact absurd off id
    | _ => trivial
  readByte _ := (device.readByte_only (fun _ => trivial) trivial).asks
  writeByte h byte := keeps_writeByte s (mayStand_elsewhere s h byte)

theorem keeps_writePair {high low : UInt8} {pair : BytePair} (hhigh : MayStand s high pair.high)
    (hlow : MayStand s low pair.low) : Keeps s (writePair high low pair).run :=
  (keeps_writeByte s hhigh).andThen fun _ => keeps_writeByte s hlow

theorem resistance_mayStand {s : Settings} {mohm : Int32} {code : UInt16}
    (hs : s.resistance = some mohm) (hcode : Resistance.encode mohm.toInt = .ok code) :
    MayStand s Register.resistanceHigh (Resistance.bytes code).high ∧
      MayStand s Register.resistanceLow (Resistance.bytes code).low :=
  ⟨⟨fun _ => ⟨mohm, hs, code, hcode, rfl⟩, nofun, nofun, nofun⟩,
    ⟨nofun, fun _ => ⟨mohm, hs, code, hcode, rfl⟩, nofun, nofun⟩⟩

theorem capacity_mayStand {s : Settings} {mah : Int32} {code : UInt16} {high low : UInt8}
    (hs : s.capacity = some mah) (hcode : Capacity.encode mah.toInt = .ok code)
    (hhigh : high &&& ~~~Capacity.valid = (Capacity.bytes code).high &&& ~~~Capacity.valid)
    (hlow : low = (Capacity.bytes code).low) :
    MayStand s Register.capacityHigh high ∧ MayStand s Register.capacityLow low :=
  ⟨⟨nofun, nofun, fun _ => ⟨mah, hs, code, hcode, hhigh⟩, nofun⟩,
    ⟨nofun, nofun, nofun, fun _ => ⟨mah, hs, code, hcode, hlow⟩⟩⟩

theorem keeps_resistance (changed : Bool) : Keeps s (applyResistance s changed).run := by
  refine closed_word (keeps_closed s) .resistance (fun mohm configured code hcode => ?_) nofun
    changed
  obtain ⟨high, low⟩ := resistance_mayStand configured hcode
  exact keeps_writePair s high low

/-- A capacity that is taken away has the word of zero. -/
theorem keeps_capacity (changed : Bool) : Keeps s (applyCapacity s changed).run := by
  refine closed_word (keeps_closed s) .capacity (fun mah configured code hcode => ?stored)
    (fun _ configured => ?cleared) changed
  case stored =>
    obtain ⟨high, low⟩ := capacity_mayStand configured hcode rfl rfl
    exact keeps_writePair s high low
  case cleared =>
    have none : Capacity.encode (0 : Int32).toInt = .ok 0 := by decide
    have cleared : MayStand s Register.capacityHigh 0 ∧ MayStand s Register.capacityLow 0 :=
      capacity_mayStand configured none (by decide) (by decide)
    exact keeps_writePair s cleared.1 cleared.2

end

/-- Whatever is configured, and however the probe goes, it writes no byte to a word that may not
stand there. -/
theorem keeps_probe (c : Charger) : Keeps c.settings c.probe := by
  have logged : ∀ entry, (Request.log entry).Writes (MayStand c.settings) := fun _ => trivial
  have closed := keeps_closed c.settings
  have words (changed : Bool) : ∀ g ∈ gaugeGroups c.settings changed,
      Keeps c.settings g.action.run := by
    simp only [gaugeGroups, List.forall_mem_cons]
    exact ⟨keeps_resistance _ changed, keeps_capacity _ changed, nofun⟩
  rw [probe_eq]
  refine (Tally.asks_runGroups logged (closed_groups closed (fun _ h => h) _) _).bind fun t => ?_
  refine (closed_curve closed (fun _ h => h) _).bind fun curve => ?_
  refine (Tally.asks_record logged t _ _).bind fun t => ?_
  refine (Tally.asks_runGroups logged (words _) t).bind fun t => ?_
  refine closed.reportStatus.bind fun result => ?_
  cases result with
  | ok => trivial
  | error e => exact Tally.asks_record logged t _ _

/-! ## Words that are cut -/

/-- Division towards zero leaves less than one divisor, on the side of what is divided. -/
theorem tdiv_bounds (a : Int) {b : Int} (h : 0 < b) :
    (0 ≤ a → a.tdiv b * b ≤ a ∧ a < a.tdiv b * b + b) ∧
    (a ≤ 0 → a ≤ a.tdiv b * b ∧ a.tdiv b * b < a + b) := by
  have split : a.tdiv b * b + a.tmod b = a := Int.tdiv_mul_add_tmod a b
  have below : a.tmod b < b := Int.tmod_lt_of_pos a h
  refine ⟨fun positive => ?_, fun negative => ?_⟩
  · have rest : 0 ≤ a.tmod b := Int.tmod_nonneg b positive
    omega
  · have mirrored : (-a).tmod b = -a.tmod b := Int.neg_tmod a b
    have rest : 0 ≤ (-a).tmod b := Int.tmod_nonneg b (by omega)
    have above : (-a).tmod b < b := Int.tmod_lt_of_pos (-a) h
    omega

/-- A signed code is cut to sixteen bits. -/
theorem toNat_ofInt (n : Int) : ((UInt16.ofInt n).toNat : Int) = n % 0x10000 := by
  rw [UInt16.ofInt, UInt16.toNat_ofNat']
  omega

namespace Resistance

/-- The code of a resistance, before it is cut to a word. -/
def rounded (mohm : Int) : Int := (mohm * 10000 + 5371).tdiv 10742

theorem encode_eq_ok {mohm : Int} {code : UInt16} (h : encode mohm = .ok code) :
    code = UInt16.ofInt (rounded mohm) := by
  have within : InRange mohm := by
    by_contra beyond
    exact (encode_overflows beyond).no_value ⟨code, h⟩
  obtain ⟨least, greatest⟩ := within
  rw [encode, signedWord_ok (by omega) (by omega)] at h
  change (Checked.signedWord .addOverflow (mohm * 10000 + 5371) >>= _) = _ at h
  rw [signedWord_ok (by omega) (by omega)] at h
  exact (Except.ok.inj h).symm

/-- The word says the resistance to within one step. -/
def Near (mohm : Int) (word : UInt16) : Prop :=
  (word.toNat * 10742 - mohm * 10000 : Int).natAbs ≤ 10742

instance (mohm : Int) (word : UInt16) : Decidable (Near mohm word) :=
  inferInstanceAs (Decidable (_ ≤ _))

/-- Resistances for which there is a word. -/
def Fits (mohm : Int) : Prop := -1 ≤ mohm ∧ mohm ≤ 8799

instance (mohm : Int) : Decidable (Fits mohm) := inferInstanceAs (Decidable (_ ∧ _))

/-- What fits is not cut. -/
theorem rounded_of_fits {mohm : Int} (h : Fits mohm) :
    rounded mohm % 0x2000 = rounded mohm := by
  obtain ⟨positive, negative⟩ := tdiv_bounds (mohm * 10000 + 5371) (b := 10742) (by decide)
  obtain ⟨least, most⟩ := h
  refine Int.emod_eq_of_lt ?_ ?_
  · unfold rounded
    omega
  · unfold rounded
    omega

theorem near_iff_fits {mohm : Int} {word : UInt16}
    (h : (word.toNat : Int) = rounded mohm % 0x2000) : Near mohm word ↔ Fits mohm := by
  constructor
  · intro near
    unfold Near at near
    unfold Fits
    omega
  · intro fits
    rw [rounded_of_fits fits] at h
    obtain ⟨positive, negative⟩ := tdiv_bounds (mohm * 10000 + 5371) (b := 10742) (by decide)
    obtain ⟨least, most⟩ := fits
    unfold Near
    unfold rounded at h
    omega

theorem rounded_le {mohm mohm' : Int} (h : mohm ≤ mohm') : rounded mohm ≤ rounded mohm' :=
  Int.tdiv_le_tdiv (by decide) (by omega)

end Resistance

namespace Capacity

/-- The code of a capacity, before it is cut to a word. -/
def truncated (mah : Int) : Int := (mah * 1000).tdiv 1456

theorem encode_eq_ok {mah : Int} {code : UInt16} (h : encode mah = .ok code) :
    code = UInt16.ofInt (truncated mah) := by
  have within : InRange mah := by
    by_contra beyond
    exact (encode_overflows beyond).no_value ⟨code, h⟩
  obtain ⟨least, greatest⟩ := within
  rw [encode, signedWord_ok (by omega) (by omega)] at h
  exact (Except.ok.inj h).symm

/-- The word says the capacity, with less than one step taken off. -/
def Near (mah : Int) (word : UInt16) : Prop :=
  (word.toNat * 1456 : Int) ≤ mah * 1000 ∧ mah * 1000 < (word.toNat + 1) * 1456

instance (mah : Int) (word : UInt16) : Decidable (Near mah word) :=
  inferInstanceAs (Decidable (_ ∧ _))

/-- Capacities for which there is a word. -/
def Fits (mah : Int) : Prop := 0 ≤ mah ∧ mah ≤ 47710

instance (mah : Int) : Decidable (Fits mah) := inferInstanceAs (Decidable (_ ∧ _))

/-- What fits is not cut. -/
theorem truncated_of_fits {mah : Int} (h : Fits mah) :
    truncated mah % 0x8000 = truncated mah := by
  obtain ⟨positive, negative⟩ := tdiv_bounds (mah * 1000) (b := 1456) (by decide)
  obtain ⟨least, most⟩ := h
  refine Int.emod_eq_of_lt ?_ ?_
  · unfold truncated
    omega
  · unfold truncated
    omega

theorem near_iff_fits {mah : Int} {word : UInt16}
    (h : (word.toNat : Int) = truncated mah % 0x8000) : Near mah word ↔ Fits mah := by
  constructor
  · intro near
    unfold Near at near
    unfold Fits
    omega
  · intro fits
    rw [truncated_of_fits fits] at h
    obtain ⟨positive, negative⟩ := tdiv_bounds (mah * 1000) (b := 1456) (by decide)
    obtain ⟨least, most⟩ := fits
    unfold Near
    unfold truncated at h
    omega

theorem truncated_le {mah mah' : Int} (h : mah ≤ mah') : truncated mah ≤ truncated mah' :=
  Int.tdiv_le_tdiv (by decide) (by omega)

end Capacity

/-! ## Words that are stored -/

/-- A probe of this chip writes both registers of a pair. -/
def WritesPair (c : Charger) (m : MemoryChip) (high low : UInt8) : Prop :=
  let reached := (c.probe.run MemoryChip.board m).events.filterMap Event.reached?
  high ∈ reached ∧ low ∈ reached

instance (c : Charger) (m : MemoryChip) (high low : UInt8) : Decidable (WritesPair c m high low) :=
  inferInstanceAs (Decidable (_ ∧ _))

/-- The registers after the probe. -/
def registersAfter (c : Charger) (m : MemoryChip) : RegisterFile :=
  (c.probe.run MemoryChip.board m).board.registers

section
variable {c : Charger} {m : MemoryChip}

theorem resistance_stored {mohm : Int32} (configured : c.settings.resistance = some mohm)
    (written : WritesPair c m Register.resistanceHigh Register.resistanceLow) :
    ((resistanceWord (registersAfter c m)).toNat : Int) =
      Resistance.rounded mohm.toInt % 0x2000 := by
  obtain ⟨_, hs, code, hcode, high⟩ := ((keeps_probe c).get_run written.1).resistanceHigh rfl
  obtain ⟨_, hs', code', hcode', low⟩ := ((keeps_probe c).get_run written.2).resistanceLow rfl
  obtain rfl := Option.some.inj (configured.symm.trans hs)
  obtain rfl := Option.some.inj (configured.symm.trans hs')
  obtain rfl := Except.ok.inj (hcode.symm.trans hcode')
  have word := Resistance.toNat_word_bytes code
  rw [← high, ← low] at word
  have cut := toNat_ofInt (Resistance.rounded mohm.toInt)
  rw [← Resistance.encode_eq_ok hcode] at cut
  change (resistanceWord (registersAfter c m)).toNat = _ at word
  omega

theorem capacity_stored {mah : Int32} (configured : c.settings.capacity = some mah)
    (written : WritesPair c m Register.capacityHigh Register.capacityLow) :
    ((capacityWord (registersAfter c m)).toNat : Int) =
      Capacity.truncated mah.toInt % 0x8000 := by
  obtain ⟨_, hs, code, hcode, high⟩ := ((keeps_probe c).get_run written.1).capacityHigh rfl
  obtain ⟨_, hs', code', hcode', low⟩ := ((keeps_probe c).get_run written.2).capacityLow rfl
  obtain rfl := Option.some.inj (configured.symm.trans hs)
  obtain rfl := Option.some.inj (configured.symm.trans hs')
  obtain rfl := Except.ok.inj (hcode.symm.trans hcode')
  have word := Capacity.toNat_word high
  rw [← low] at word
  have cut := toNat_ofInt (Capacity.truncated mah.toInt)
  rw [← Capacity.encode_eq_ok hcode] at cut
  change (capacityWord (registersAfter c m)).toNat = _ at word
  omega

end

/-- The probe writes the resistance that is configured, and this is the word then. -/
structure StoresResistance (c : Charger) (m : MemoryChip) (mohm : Int32) (word : UInt16) :
    Prop where
  configured : c.settings.resistance = some mohm
  written : WritesPair c m Register.resistanceHigh Register.resistanceLow
  word : resistanceWord (registersAfter c m) = word

/-- The probe writes the capacity that is configured, and this is the word then. -/
structure StoresCapacity (c : Charger) (m : MemoryChip) (mah : Int32) (word : UInt16) : Prop where
  configured : c.settings.capacity = some mah
  written : WritesPair c m Register.capacityHigh Register.capacityLow
  word : capacityWord (registersAfter c m) = word

/-- Whatever is configured, and whichever transfers fail, a word that a probe writes says the value
to within one step just when there is a word for that value. Among those values a larger one never
has a smaller word, be it of another probe on another chip. -/
theorem stored_words_near_iff_fit (c c' : Charger) (m m' : MemoryChip) :
    (∀ mohm word, StoresResistance c m mohm word →
      (Resistance.Near mohm.toInt word ↔ Resistance.Fits mohm.toInt) ∧
      ∀ mohm' word', StoresResistance c' m' mohm' word' →
        Resistance.Fits mohm.toInt → Resistance.Fits mohm'.toInt → mohm ≤ mohm' → word ≤ word') ∧
    (∀ mah word, StoresCapacity c m mah word →
      (Capacity.Near mah.toInt word ↔ Capacity.Fits mah.toInt) ∧
      ∀ mah' word', StoresCapacity c' m' mah' word' →
        Capacity.Fits mah.toInt → Capacity.Fits mah'.toInt → mah ≤ mah' → word ≤ word') := by
  refine ⟨?resistance, ?capacity⟩
  case resistance =>
    rintro mohm word ⟨configured, written, rfl⟩
    have stored := resistance_stored configured written
    refine ⟨Resistance.near_iff_fits stored, ?_⟩
    rintro mohm' word' ⟨configured', written', rfl⟩ fits fits' le
    have stored' := resistance_stored configured' written'
    rw [Resistance.rounded_of_fits fits] at stored
    rw [Resistance.rounded_of_fits fits'] at stored'
    have order := Resistance.rounded_le (Int32.le_iff_toInt_le.mp le)
    exact UInt16.le_iff_toNat_le.mpr (by omega)
  case capacity =>
    rintro mah word ⟨configured, written, rfl⟩
    have stored := capacity_stored configured written
    refine ⟨Capacity.near_iff_fits stored, ?_⟩
    rintro mah' word' ⟨configured', written', rfl⟩ fits fits' le
    have stored' := capacity_stored configured' written'
    rw [Capacity.truncated_of_fits fits] at stored
    rw [Capacity.truncated_of_fits fits'] at stored'
    have order := Capacity.truncated_le (Int32.le_iff_toInt_le.mp le)
    exact UInt16.le_iff_toNat_le.mpr (by omega)

/-- A battery of an ordinary size on a blank chip. -/
theorem ordinary_words_near :
    let c := batteryBoard none 300 4000
    let m : MemoryChip := ⟨.zero, .never, fun _ => true⟩
    StoresResistance c m 300 0x117 ∧ Resistance.Near 300 0x117 ∧
    StoresCapacity c m 4000 0xABB ∧ Capacity.Near 4000 0xABB := by
  intro c m
  have resistance : StoresResistance c m 300 0x117 :=
    ⟨rfl, by decide +kernel, by decide +kernel⟩
  have capacity : StoresCapacity c m 4000 0xABB := ⟨rfl, by decide +kernel, by decide +kernel⟩
  obtain ⟨resistances, capacities⟩ := stored_words_near_iff_fit c c m m
  exact ⟨resistance, (resistances _ _ resistance).1.mpr (by decide), capacity,
    (capacities _ _ capacity).1.mpr (by decide)⟩

/-- A resistance one milliohm above the largest that fits is stored as none at all, and a capacity
that is a little too large as a very small one. -/
theorem long_codes_cut :
    let c := batteryBoard none 8800 48000
    let m : MemoryChip := ⟨.zero, .never, fun _ => true⟩
    StoresResistance c m 8800 0 ∧ ¬ Resistance.Near 8800 0 ∧
    StoresCapacity c m 48000 199 ∧ ¬ Capacity.Near 48000 199 :=
  ⟨⟨rfl, by decide +kernel, by decide +kernel⟩, by decide,
    ⟨rfl, by decide +kernel, by decide +kernel⟩, by decide⟩

end Charger

end Bringup
