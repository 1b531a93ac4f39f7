import Bringup.Proofs.PackedSlots
import Bringup.Proofs.SecondPowerUp

/-! The registers a probe of the power chip leaves behind, and what each group is counted as. Four
groups go by the configuration. Where some part of a group is missing or does not fit its place,
nothing comes near the group's register. -/
namespace Bringup

open Bench (Faults MemoryChip RegisterFile)
open Chip

/-- Not a transfer that reaches the register. -/
def Request.Avoids (r : UInt8) : Request → Prop
  | .busRead _ start count => ∀ i < count, start + UInt8.ofNat i ≠ r
  | .busWrite _ start bytes => ∀ i < bytes.length, start + UInt8.ofNat i ≠ r
  | _ => True

theorem Event.avoids_of_not_transfer {e : Event} (h : e.isTransfer = false) (r : UInt8) :
    e.request.Avoids r := by
  obtain ⟨request, answer⟩ := e
  cases request with
  | busRead => cases h
  | busWrite => cases h
  | _ => trivial

namespace Chip

open Program (Only)

section
variable {r r' : UInt8} (h : r' ≠ r)
include h

theorem avoids_one : ∀ i < 1, r' + UInt8.ofNat i ≠ r := by
  intro i hi
  obtain rfl : i = 0 := by omega
  simpa using h

theorem avoids_readByte (d : Device) : (d.readByte r').run.Only (Request.Avoids r) :=
  d.readByte_only (fun _ => trivial) (avoids_one h)

theorem avoids_writeByte (d : Device) (byte : UInt8) :
    (d.writeByte r' byte).run.Only (Request.Avoids r) :=
  d.writeByte_only (fun _ => trivial) (avoids_one h)

end

theorem avoids_update {r : UInt8} (d : Device) {f : Field} (h : f.register ≠ r) (bits : UInt8) :
    (d.update f bits).run.Only (Request.Avoids r) :=
  d.update_only (fun _ => trivial) (avoids_one h) (fun _ => avoids_one h) bits

section
variable {ok : Request → Prop} {gs : List Group} {m : MemoryChip}

theorem groupRuns_only (h : ∀ g ∈ gs, g.action.run.Only ok) :
    ∀ r ∈ groupRuns gs m, ∀ e ∈ r.events, ok e.request := by
  induction gs generalizing m with
  | nil => exact nofun
  | cons g gs ih =>
    obtain ⟨hg, hgs⟩ := List.forall_mem_cons.mp h
    obtain ⟨_, -, own⟩ := hg.ends MemoryChip.board m
    exact List.forall_mem_cons.mpr ⟨own, ih hgs⟩

/-- A pass makes no transfer that none of its groups makes. -/
theorem GoesThrough.only {α : Type} {p : Program α} (h : GoesThrough p gs m)
    (groups : ∀ g ∈ gs, g.action.run.Only ok)
    (quiet : ∀ e : Event, e.isTransfer = false → ok e.request) :
    ∀ e ∈ (p.run MemoryChip.board m).events, ok e.request := by
  intro e he
  cases transfer : e.isTransfer with
  | false => exact quiet e transfer
  | true =>
    have made : e ∈ (p.run MemoryChip.board m).transfers := List.mem_filter.mpr ⟨he, transfer⟩
    rw [h.transfers] at made
    obtain ⟨r, hr, own⟩ := List.mem_flatMap.mp made
    exact groupRuns_only groups r hr e (List.mem_filter.mp own).1

end

end Chip

namespace Pmic

open Program (Only)

/-! ## What is asked of each register -/

/-- What the configuration asks for. -/
inductive Wish where
  /-- Some part is not configured. -/
  | missing
  /-- All parts are configured, and some value does not fit its place. -/
  | unfit
  | byte (bits : UInt8)
  deriving DecidableEq, Repr

/-- A value from zero to `top`. -/
def InRange (top : Nat) (v : Int32) : Prop := 0 ≤ v.toInt ∧ v.toInt ≤ top

instance (top : Nat) (v : Int32) : Decidable (InRange top v) :=
  inferInstanceAs (Decidable (_ ∧ _))

/-- A value in range as a byte. -/
def octet (v : Int32) : UInt8 := UInt8.ofNat v.toInt.toNat

def frequencyWish (s : Settings) : Wish :=
  match s.spreadEnable, s.spreadRange, s.polyPhase, s.switchFrequency with
  | some enable, some spread, some phase, some frequency =>
      if InRange 1 enable ∧ InRange 1 spread ∧ InRange 1 phase ∧ InRange 15 frequency then
        .byte (octet enable <<< 7 ||| octet spread <<< 6 ||| octet phase <<< 4 ||| octet frequency)
      else
        .unfit
  | _, _, _, _ => .missing

def overheatWish (s : Settings) : Wish :=
  match s.wakeOnInterrupt, s.vbusAcinFunction, s.vbusAcinStatus, s.vbusEnable, s.resetEnable,
    s.overheatOff with
  | some wake, some function, some status, some vbus, some reset, some off =>
      if InRange 1 wake ∧ InRange 1 function ∧ InRange 1 status ∧ InRange 1 vbus ∧
          InRange 1 reset ∧ InRange 1 off then
        .byte (octet wake <<< 7 ||| octet function <<< 6 ||| octet status <<< 5 |||
          octet vbus <<< 4 ||| octet reset <<< 3 ||| octet off <<< 2 ||| 1)
      else
        .unfit
  | _, _, _, _, _, _ => .missing

/-- A value that has its register to itself. -/
def singleWish (top : Nat) : Option Int32 → Wish
  | none => .missing
  | some v => if InRange top v then .byte (octet v) else .unfit

/-- The groups that go by the configuration. -/
inductive Part where
  | frequency
  | offVoltage
  | adcControl
  | overheat
  deriving DecidableEq, Repr

namespace Part

def all : List Part := [frequency, offVoltage, adcControl, overheat]

def register : Part → UInt8
  | frequency => Register.converterFrequency
  | offVoltage => Register.powerOff
  | adcControl => Register.adcControl
  | overheat => Register.overheat

def wish (s : Settings) : Part → Wish
  | frequency => frequencyWish s
  | offVoltage => singleWish 7 s.offVoltage
  | adcControl => singleWish 255 s.adcControl
  | overheat => overheatWish s

/-- The off voltage is a field of its register, and ADC bits are only ever added. -/
def put (bits byte : UInt8) : Part → UInt8
  | frequency => bits
  | offVoltage => (byte &&& ~~~0x07) ||| bits
  | adcControl => byte ||| bits
  | overheat => bits

/-- What becomes of a byte in the register. -/
def after (s : Settings) (p : Part) (byte : UInt8) : UInt8 :=
  match p.wish s with
  | .byte bits => p.put bits byte
  | _ => byte

/-- Nothing is to be done for the part. -/
def Idle (s : Settings) (p : Part) : Prop := ∀ bits, p.wish s ≠ .byte bits

/-- A group of several parts that is not complete is counted as such. -/
def missing : Part → Except ChipError Outcome
  | frequency => .error (.incomplete "frequency spread / poly-phase / switch frequency")
  | offVoltage => .ok .skipped
  | adcControl => .ok .skipped
  | overheat => .error (.incomplete "hot-over / VBUS control")

/-- What the group is counted as. -/
def result (s : Settings) (f : RegisterFile) (p : Part) : Except ChipError Outcome :=
  match p.wish s with
  | .missing => p.missing
  | .unfit => .error .invalidInput
  | .byte bits => .ok (.ofWritten (decide (p.put bits (f.get p.register) ≠ f.get p.register)))

end Part

/-- The interrupts that are set up, all of them cleared. -/
def interruptTarget (r byte : UInt8) : UInt8 :=
  if r = Register.interruptEnable1 then 0xD8
  else if r = Register.interruptEnable2 then 0xFF
  else if r = Register.interruptEnable3 then 0x00
  else if r = Register.interruptEnable4 then 0x01
  else if r = Register.interruptEnable5 then 0x00
  else if r = Register.interruptStatus1 then 0xFF
  else if r = Register.interruptStatus2 then 0xFF
  else if r = Register.interruptStatus3 then 0xFF
  else if r = Register.interruptStatus4 then 0xFF
  else if r = Register.interruptStatus5 then 0xFF
  else byte

/-- The byte that a register holds after a probe. -/
def target (s : Settings) (f : RegisterFile) (r : UInt8) : UInt8 :=
  if r = Register.converterFrequency then Part.frequency.after s (f.get r)
  else if r = Register.powerOff then Part.offVoltage.after s (f.get r)
  else if r = Register.adcControl then Part.adcControl.after s (f.get r)
  else if r = Register.overheat then Part.overheat.after s (f.get r)
  else interruptTarget r (f.get r)

/-- What the groups are counted as. The interrupts come last, and nothing can be wrong with them. -/
def results (s : Settings) (f : RegisterFile) : List (Except ChipError Outcome) :=
  Part.all.map (Part.result s f) ++ [.ok .written]

/-! ## The groups do it -/

namespace Part

def action (d : Device) (s : Settings) : Part → Access Outcome
  | frequency => applySlots d frequencyField "frequency spread / poly-phase / switch frequency"
      (frequencySlots s)
  | offVoltage => applyOffVoltage d s
  | adcControl => applyAdcControl d s
  | overheat => applySlots d overheatField "hot-over / VBUS control" (overheatSlots s)

/-- The field that takes the bits. -/
def field (bits : UInt8) : Part → Field
  | frequency => frequencyField
  | offVoltage => offVoltageField
  | adcControl => ⟨Register.adcControl, bits⟩
  | overheat => overheatField

/-- The update of the group, if it comes to one. -/
def carryOut (d : Device) (p : Part) : Wish → Access Outcome
  | .missing => MonadExcept.ofExcept p.missing
  | .unfit => throw .invalidInput
  | .byte bits => Outcome.ofWritten <$> d.update (p.field bits) bits

theorem pack_single (top : UInt8) (v : Int32) :
    pack [⟨v, top, 0⟩] = if InRange top.toNat v then some (octet v) else none := by
  rw [pack_eq]
  simp only [List.forall_mem_singleton, List.foldl_cons, List.foldl_nil, Slot.bits,
    UInt8.shiftLeft_zero, UInt8.zero_or]
  rfl

theorem pack_frequency (enable spread phase frequency : Int32) :
    pack [⟨enable, 1, 7⟩, ⟨spread, 1, 6⟩, ⟨phase, 1, 4⟩, ⟨frequency, 0xF, 0⟩] =
      if InRange 1 enable ∧ InRange 1 spread ∧ InRange 1 phase ∧ InRange 15 frequency then
        some (octet enable <<< 7 ||| octet spread <<< 6 ||| octet phase <<< 4 ||| octet frequency)
      else
        none := by
  rw [pack_eq]
  simp only [List.forall_mem_cons, List.not_mem_nil, false_imp_iff, implies_true, and_true,
    List.foldl_cons, List.foldl_nil, Slot.bits, UInt8.shiftLeft_zero, UInt8.zero_or]
  rfl

theorem pack_overheat (wake function status vbus reset off : Int32) :
    pack [⟨wake, 1, 7⟩, ⟨function, 1, 6⟩, ⟨status, 1, 5⟩, ⟨vbus, 1, 4⟩, ⟨reset, 1, 3⟩,
        ⟨off, 1, 2⟩, ⟨1, 1, 0⟩] =
      if InRange 1 wake ∧ InRange 1 function ∧ InRange 1 status ∧ InRange 1 vbus ∧
          InRange 1 reset ∧ InRange 1 off then
        some (octet wake <<< 7 ||| octet function <<< 6 ||| octet status <<< 5 |||
          octet vbus <<< 4 ||| octet reset <<< 3 ||| octet off <<< 2 ||| 1)
      else
        none := by
  have lowest : (⟨1, 1, 0⟩ : Slot).Fits := by decide
  rw [pack_eq]
  simp only [List.forall_mem_cons, List.not_mem_nil, false_imp_iff, implies_true, and_true, lowest,
    List.foldl_cons, List.foldl_nil, Slot.bits, UInt8.zero_or]
  rfl

/-- All parts are there, and it depends on whether they fit. -/
theorem applySlots_some (d : Device) (f : Field) (what : String) {slots : List Slot}
    {fits : Prop} [Decidable fits] {byte : UInt8}
    (h : pack slots = if fits then some byte else none) :
    applySlots d f what (some slots) =
      if fits then Outcome.ofWritten <$> d.update f byte else throw .invalidInput := by
  rw [applySlots, h]
  by_cases hfits : fits
  · rw [if_pos hfits, if_pos hfits]
    rfl
  · rw [if_neg hfits, if_neg hfits]

theorem carryOut_ite (d : Device) (p : Part) (fits : Prop) [Decidable fits] (bits : UInt8) :
    p.carryOut d (if fits then .byte bits else .unfit) =
      if fits then Outcome.ofWritten <$> d.update (p.field bits) bits else throw .invalidInput := by
  split <;> rfl

theorem frequency_eq (d : Device) (s : Settings) :
    frequency.action d s = frequency.carryOut d (frequencyWish s) := by
  unfold action frequencySlots frequencyWish
  cases s.spreadEnable with
  | none => rfl
  | some enable =>
  cases s.spreadRange with
  | none => rfl
  | some spread =>
  cases s.polyPhase with
  | none => rfl
  | some phase =>
  cases s.switchFrequency with
  | none => rfl
  | some frequency =>
    dsimp only
    rw [carryOut_ite]
    exact applySlots_some d _ _ (pack_frequency enable spread phase frequency)

theorem overheat_eq (d : Device) (s : Settings) :
    overheat.action d s = overheat.carryOut d (overheatWish s) := by
  unfold action overheatSlots overheatWish
  cases s.wakeOnInterrupt with
  | none => rfl
  | some wake =>
  cases s.vbusAcinFunction with
  | none => rfl
  | some function =>
  cases s.vbusAcinStatus with
  | none => rfl
  | some status =>
  cases s.vbusEnable with
  | none => rfl
  | some vbus =>
  cases s.resetEnable with
  | none => rfl
  | some reset =>
  cases s.overheatOff with
  | none => rfl
  | some off =>
    dsimp only
    rw [carryOut_ite]
    exact applySlots_some d _ _ (pack_overheat wake function status vbus reset off)

/-- A value that has its register to itself is passed over if it is not configured. -/
theorem single_eq (d : Device) {p : Part} (skips : p.missing = .ok .skipped) (top : UInt8)
    (value : Option Int32) :
    (match value with
      | none => return .skipped
      | some v =>
          match pack [⟨v, top, 0⟩] with
          | none => throw .invalidInput
          | some bits => return .ofWritten (← d.update (p.field bits) bits) : Access Outcome) =
      p.carryOut d (singleWish top.toNat value) := by
  cases value with
  | none => exact (congrArg MonadExcept.ofExcept skips).symm
  | some v =>
    dsimp only [singleWish]
    rw [carryOut_ite, pack_single]
    by_cases fits : InRange top.toNat v
    · rw [if_pos fits, if_pos fits]
      rfl
    · rw [if_neg fits, if_neg fits]

theorem action_eq (d : Device) (s : Settings) (p : Part) :
    p.action d s = p.carryOut d (p.wish s) := by
  cases p with
  | frequency => exact frequency_eq d s
  | offVoltage => exact single_eq d (p := offVoltage) rfl 0x07 s.offVoltage
  | adcControl => exact single_eq d (p := adcControl) rfl 0xFF s.adcControl
  | overheat => exact overheat_eq d s

/-! ## A probe does it -/

theorem fits_of_wish {s : Settings} {p : Part} {bits : UInt8} (h : p.wish s = .byte bits) :
    bits &&& ~~~(p.field bits).mask = 0 := by
  have all : ~~~(0xFF : UInt8) = 0 := by decide
  cases p with
  | frequency => exact (congrArg _ all).trans UInt8.and_zero
  | overheat => exact (congrArg _ all).trans UInt8.and_zero
  | adcControl => exact UInt8.and_not_self
  | offVoltage =>
    have small : ∀ n < 8, UInt8.ofNat n &&& ~~~(0x07 : UInt8) = 0 := by decide
    change singleWish 7 s.offVoltage = .byte bits at h
    unfold singleWish at h
    cases hv : s.offVoltage with
    | none => simp [hv] at h
    | some v =>
      by_cases range : InRange 7 v
      · obtain rfl : octet v = bits := by simpa [hv, range] using h
        exact small _ (by have := range.2; omega)
      · simp [hv, range] at h

/-- The update of a part, as a revision. -/
def revision (p : Part) (bits : UInt8) (h : bits &&& ~~~(p.field bits).mask = 0) : Revision :=
  ⟨p.field bits, bits, h⟩

theorem register_injective {p q : Part} : p.register = q.register → p = q := by
  cases p <;> cases q <;> decide

theorem field_register (p : Part) (bits : UInt8) : (p.field bits).register = p.register := by
  cases p <;> rfl

theorem byte_revision (p : Part) {bits : UInt8} (h : bits &&& ~~~(p.field bits).mask = 0)
    (byte : UInt8) : (p.revision bits h).byte byte = p.put bits byte := by
  have all : ~~~(0xFF : UInt8) = 0 := by decide
  cases p with
  | frequency => simp [revision, Revision.byte, Field.replace, put, field, frequencyField, all]
  | overheat => simp [revision, Revision.byte, Field.replace, put, field, overheatField, all]
  | offVoltage => rfl
  | adcControl =>
    apply bit_ext
    intro i hi
    simp only [revision, Revision.byte, Field.replace, put, field, bit_or, bit_and, bit_not _ hi]
    cases bit bits i <;> simp

/-- The registers once the part is carried out. -/
def store (s : Settings) (f : RegisterFile) (p : Part) : RegisterFile :=
  f.set p.register (p.after s (f.get p.register))

theorem get_store (s : Settings) (f : RegisterFile) (p : Part) (r : UInt8) :
    (p.store s f).get r = if p.register = r then p.after s (f.get r) else f.get r := by
  rw [store, RegisterFile.get_set]
  split
  · rename_i here
    rw [here]
  · rfl

theorem store_of_idle {s : Settings} {p : Part} (h : p.Idle s) (f : RegisterFile) :
    p.store s f = f := by
  have same (byte : UInt8) : p.after s byte = byte := by
    unfold after
    cases hw : p.wish s with
    | byte bits => exact absurd hw (h bits)
    | _ => rfl
  apply RegisterFile.ext
  intro r
  rw [get_store, same, ite_self]

theorem run_action (d : Device) (s : Settings) (p : Part) (f : RegisterFile) (hosts : Nat → Bool) :
    ∃ events, MemoryChip.run ⟨f, .never, hosts⟩ (p.action d s) =
      ⟨.ok (p.result s f), events, ⟨p.store s f, .never, hosts⟩⟩ := by
  rw [action_eq, result]
  cases hw : p.wish s with
  | missing =>
    rw [store_of_idle (by simp [Idle, hw])]
    exact ⟨[], by cases p <;> rfl⟩
  | unfit =>
    rw [store_of_idle (by simp [Idle, hw])]
    exact ⟨[], rfl⟩
  | byte bits =>
    let v : Revision := p.revision bits (fits_of_wish hw)
    have register : v.field.register = p.register := p.field_register bits
    have changed (byte : UInt8) : v.byte byte = p.put bits byte := p.byte_revision _ byte
    have stored : v.apply f = p.store s f := by
      rw [Revision.apply, register, changed, store, after, hw]
    have carried : p.carryOut d (.byte bits) = Outcome.ofWritten <$> d.update v.field v.bits := rfl
    have spared : Faults.none.Spares v.field.register := Faults.none_spares _
    dsimp only
    rw [carried, MemoryChip.run_map, ← stored, ← changed, ← register]
    by_cases holds : v.Holds f
    · have run : MemoryChip.run ⟨f, .never, hosts⟩ (d.update v.field v.bits) = _ :=
        run_update_of_holds (q := .none) d spared holds
      rw [run, Revision.apply_of_holds holds, (v.byte_eq_self_iff _).mpr holds,
        decide_eq_false fun differs => differs rfl]
      exact ⟨_, rfl⟩
    · have run : MemoryChip.run ⟨f, .never, hosts⟩ (d.update v.field v.bits) = _ :=
        run_update_of_not_holds (q := .none) d spared holds
      rw [run, decide_eq_true (mt (v.byte_eq_self_iff _).mp holds)]
      exact ⟨_, rfl⟩

/-- What a group comes to does not change with other registers. -/
theorem result_congr (s : Settings) {f g : RegisterFile} (p : Part)
    (h : g.get p.register = f.get p.register) : p.result s g = p.result s f := by
  rw [result, result, h]

/-- The name of the group in the log. -/
def name : Part → String
  | frequency => "DCDC_FREQSET"
  | offVoltage => "VOFF_SET"
  | adcControl => "ADC_CONTROL3"
  | overheat => "HOTOVER_CTL"

def group (d : Device) (s : Settings) (p : Part) : Group := ⟨p.name, p.action d s⟩

theorem settingGroups_eq (d : Device) (s : Settings) :
    settingGroups d s = all.map (group d s) := rfl

/-- Parts of different registers do not get into each other's way. -/
theorem passes_parts (d : Device) (s : Settings) {parts : List Part}
    (apart : parts.Pairwise fun p q => p.register ≠ q.register) {rest : List Group}
    {f : RegisterFile} {hosts : Nat → Bool} {results : List (Except ChipError Outcome)}
    {writes : List (UInt8 × List UInt8)} {m : MemoryChip}
    (others : Passes rest ⟨parts.foldl (store s) f, .never, hosts⟩ results writes m) :
    ∃ writes, Passes (parts.map (group d s) ++ rest) ⟨f, .never, hosts⟩
      (parts.map (result s f) ++ results) writes m := by
  induction parts generalizing f with
  | nil => exact ⟨writes, others⟩
  | cons p parts ih =>
    obtain ⟨hp, hparts⟩ := List.pairwise_cons.mp apart
    obtain ⟨later, passes⟩ := ih hparts others
    have same : parts.map (result s (p.store s f)) = parts.map (result s f) := by
      refine List.map_congr_left fun q hq => q.result_congr s ?_
      rw [get_store, if_neg (hp q hq)]
    obtain ⟨events, first⟩ := p.run_action d s f hosts
    rw [same] at passes
    exact ⟨_, .cons first passes⟩

/-- A register sees the part that is its own. -/
theorem get_stores (s : Settings) (parts : List Part) (f : RegisterFile) (r : UInt8) :
    (parts.foldl (store s) f).get r =
      parts.foldl (fun byte p => if p.register = r then p.after s byte else byte) (f.get r) := by
  induction parts generalizing f with
  | nil => rfl
  | cons p parts ih =>
    rw [List.foldl_cons, ih, get_store]
    rfl

end Part

/-- Bytes for different registers all stay. -/
theorem get_bytes {setups : List (UInt8 × UInt8)} (apart : setups.Pairwise fun a b => a.1 ≠ b.1)
    (f : RegisterFile) (r : UInt8) :
    (Revision.applyAll (setups.map byteRevision) f).get r =
      setups.foldr (fun setup byte => if r = setup.1 then setup.2 else byte) (f.get r) := by
  induction setups generalizing f with
  | nil => rfl
  | cons setup setups ih =>
    obtain ⟨hsetup, hsetups⟩ := List.pairwise_cons.mp apart
    rw [List.map_cons, Revision.applyAll_cons, apply_byteRevision, List.foldr_cons]
    by_cases hr : r = setup.1
    · subst hr
      have later : ∀ v ∈ setups.map byteRevision, v.field.register ≠ setup.1 := by
        intro v hv
        obtain ⟨other, hother, rfl⟩ := List.mem_map.mp hv
        exact (hsetup other hother).symm
      rw [if_pos rfl, Revision.get_applyAll_of_ne later, RegisterFile.get_set_self]
    · rw [if_neg hr, ih hsetups, RegisterFile.get_set_of_ne _ _ (Ne.symm hr)]

theorem get_interrupts (f : RegisterFile) (r : UInt8) :
    (Revision.applyAll interruptRevisions f).get r = interruptTarget r (f.get r) :=
  get_bytes (by decide) f r

/-- The registers that the interrupts are set up in belong to no other group. -/
theorem get_probed (s : Settings) (f : RegisterFile) (r : UInt8) :
    (Revision.applyAll interruptRevisions (Part.all.foldl (Part.store s) f)).get r =
      target s f r := by
  rw [get_interrupts, Part.get_stores, target]
  by_cases frequency : r = Register.converterFrequency
  · subst frequency
    rfl
  rw [if_neg frequency]
  by_cases offVoltage : r = Register.powerOff
  · subst offVoltage
    rfl
  rw [if_neg offVoltage]
  by_cases adcControl : r = Register.adcControl
  · subst adcControl
    rfl
  rw [if_neg adcControl]
  by_cases overheat : r = Register.overheat
  · subst overheat
    rfl
  rw [if_neg overheat]
  simp only [Part.all, Part.register, List.foldl_cons, List.foldl_nil, Ne.symm frequency,
    Ne.symm offVoltage, Ne.symm adcControl, Ne.symm overheat, if_false]

/-- A part that is idle makes no transfer, and the others make none there. -/
theorem avoids_action {s : Settings} {q : Part} (idle : q.Idle s) (p : Part) (d : Device) :
    (p.action d s).run.Only (Request.Avoids q.register) := by
  rw [Part.action_eq]
  cases hw : p.wish s with
  | missing => cases p <;> trivial
  | unfit => trivial
  | byte bits =>
    have other : p ≠ q := by
      rintro rfl
      exact idle bits hw
    have registers : (p.field bits).register ≠ q.register := by
      rw [p.field_register]
      exact mt Part.register_injective other
    exact (avoids_update d registers bits).andThen fun _ => trivial

theorem avoids_interrupts (q : Part) (d : Device) :
    (interruptGroup d).action.run.Only (Request.Avoids q.register) := by
  have listed : interruptSetup.all (·.1 != q.register) = true := by cases q <;> rfl
  have elsewhere (setup : UInt8 × UInt8) (h : setup ∈ interruptSetup) : setup.1 ≠ q.register :=
    bne_iff_ne.mp (List.all_eq_true.mp listed setup h)
  have identity : Register.chipId ≠ q.register := by cases q <;> decide
  have logged (text : String) :
      (liftM (Program.log .info text) : Access Unit).run.Only (Request.Avoids q.register) :=
    ⟨trivial, fun _ => trivial⟩
  have set_up : (initChip d).run.Only (Request.Avoids q.register) :=
    (avoids_readByte identity d).andThen fun _ => (logged _).andThen fun _ =>
      (Only.each fun setup hsetup => avoids_writeByte (elsewhere setup hsetup) d _).andThen
        fun _ => trivial
  exact set_up.andThen fun _ => trivial

theorem avoids_groups {s : Settings} {q : Part} (idle : q.Idle s) (d : Device) :
    ∀ g ∈ groups d s, g.action.run.Only (Request.Avoids q.register) := by
  intro g hg
  rw [groups_eq, Part.settingGroups_eq] at hg
  rcases List.mem_append.mp hg with hg | hg
  · obtain ⟨p, -, rfl⟩ := List.mem_map.mp hg
    exact avoids_action idle p d
  · obtain rfl := List.mem_singleton.mp hg
    exact avoids_interrupts q d

theorem probe_run (d : Device) (s : Settings) {m m' : MemoryChip}
    {results : List (Except ChipError Outcome)} {writes : List (UInt8 × List UInt8)}
    (passes : Passes (groups d s) m results writes m') :
    ∃ events, (probe d s).run MemoryChip.board m =
      ⟨.ok (results.foldl Tally.tick .empty), events, m'⟩ := by
  obtain ⟨events, hrun, -⟩ := passes.runGroups_run (groups_room d s)
  rw [probe, Program.run_bind, hrun, Program.Run.andThen_ok]
  split
  · exact ⟨_, rfl⟩
  · exact ⟨_, rfl⟩

/-- A probe of a chip with plain memory on a bus that lets everything through comes to its end. It
leaves every register with the byte it is meant to hold, and counts what became of each group; and
where some part of a group is missing or does not fit, no transfer reaches the group's register. -/
theorem probe_sets_registers (d : Device) (s : Settings) (f : RegisterFile) (hosts : Nat → Bool) :
    ∃ events g, (probe d s).run MemoryChip.board ⟨f, .never, hosts⟩ =
        ⟨.ok ((results s f).foldl Tally.tick .empty), events, ⟨g, .never, hosts⟩⟩ ∧
      (∀ r, g.get r = target s f r) ∧
      ∀ p : Part, p.Idle s → ∀ e ∈ events, e.request.Avoids p.register := by
  obtain ⟨_, interrupts, -⟩ := run_interrupts d (Part.all.foldl (Part.store s) f) hosts
  have last := Passes.cons interrupts (.nil _)
  obtain ⟨_, passes⟩ := Part.passes_parts d s (f := f) (by decide) last
  obtain ⟨events, hrun⟩ := probe_run d s (groups_eq d s ▸ Part.settingGroups_eq d s ▸ passes)
  refine ⟨events, _, hrun, get_probed s f, fun p idle e he => ?_⟩
  have through := probe_through d s ⟨f, .never, hosts⟩
  have avoided := through.only (avoids_groups idle d) fun e quiet =>
    e.avoids_of_not_transfer quiet _
  rw [hrun] at avoided
  exact avoided e he

/-- No switching frequency, an off voltage below zero, and a VBUS switch that is neither on nor
off. -/
def partlyFit : Settings where
  spreadEnable := some 1
  spreadRange := some 0
  polyPhase := some 1
  switchFrequency := none
  offVoltage := some (-1)
  adcControl := some 0x10
  wakeOnInterrupt := some 1
  vbusAcinFunction := some 0
  vbusAcinStatus := some 1
  vbusEnable := some 2
  resetEnable := some 0
  overheatOff := some 1

/-- Of such a configuration, the ADC bits are all that reaches a blank chip. -/
theorem partlyFit_sets_registers :
    Part.frequency.Idle partlyFit ∧ Part.offVoltage.Idle partlyFit ∧ Part.overheat.Idle partlyFit ∧
    ∃ events g, (probe .standard partlyFit).run MemoryChip.board ⟨.zero, .never, fun _ => true⟩ =
        ⟨.ok ⟨2, 0, 0, 1, 2⟩, events, ⟨g, .never, fun _ => true⟩⟩ ∧
      g.get Register.converterFrequency = 0 ∧ g.get Register.adcControl = 0x10 ∧
      g.get Register.interruptEnable1 = 0xD8 ∧ g.get Register.interruptStatus5 = 0xFF ∧
      ∀ e ∈ events, e.request.Avoids Register.converterFrequency ∧
        e.request.Avoids Register.powerOff ∧ e.request.Avoids Register.overheat := by
  have missing : Part.frequency.wish partlyFit = .missing := by decide
  have below : Part.offVoltage.wish partlyFit = .unfit := by decide
  have above : Part.overheat.wish partlyFit = .unfit := by decide
  have frequency : Part.frequency.Idle partlyFit := by simp [Part.Idle, missing]
  have offVoltage : Part.offVoltage.Idle partlyFit := by simp [Part.Idle, below]
  have overheat : Part.overheat.Idle partlyFit := by simp [Part.Idle, above]
  obtain ⟨events, g, hrun, holds, avoids⟩ :=
    probe_sets_registers .standard partlyFit .zero fun _ => true
  refine ⟨frequency, offVoltage, overheat, events, g, hrun, ?_, ?_, ?_, ?_, fun e he => ?_⟩
  · exact (holds _).trans (by decide)
  · exact (holds _).trans (by decide)
  · exact (holds _).trans (by decide)
  · exact (holds _).trans (by decide)
  · exact ⟨avoids _ frequency e he, avoids _ offVoltage e he, avoids _ overheat e he⟩

end Pmic

end Bringup
