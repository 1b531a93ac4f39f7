import Bringup.Proofs.CodeWidths
import Bringup.Proofs.Interleaving

/-! The limits of the charger as three cells. Whatever is asked of the charger between probes, the
chip answers as a panel of three numbers would, and no bit outside of the three fields changes. -/
namespace Bringup

open Bench (Faults MemoryChip RegisterFile)
open Bench.RegisterFile (AgreeOn AgreeOutside)
open Chip

/-! ## Accesses without a failure -/

namespace Program.Yields

variable {α β : Type} {m m' m'' : MemoryChip} {x : α}

theorem andThen {p : Access α} {f : α → Access β} {result : Except ChipError β}
    (first : p.run.Yields m (.ok x) m') (rest : (f x).run.Yields m' result m'') :
    (p >>= f).run.Yields m result m'' := by
  rw [ExceptT.run_bind]
  exact first.bind rest

theorem returns (x : α) (m : MemoryChip) : (pure x : Access α).run.Yields m (.ok x) m := ⟨rfl, rfl⟩

theorem result {p : Access α} (h : p.run.Yields m (.ok x) m') (g : α → β) :
    (g <$> p).run.Yields m (.ok (g x)) m' := by
  rw [map_eq_pure_bind]
  exact h.andThen (returns (g x) m')

theorem lift {p : Program α} (h : p.Yields m x m') :
    (liftM p : Access α).run.Yields m (.ok x) m' :=
  h.map Except.ok

variable (d : Device) (f : RegisterFile) (hosts : Nat → Bool)

theorem readByte (r : UInt8) :
    (d.readByte r).run.Yields ⟨f, .never, hosts⟩ (.ok (f.get r)) ⟨f, .never, hosts⟩ := by
  have run := MemoryChip.run_readByte d (Faults.none_spares r .read) f hosts
  exact ⟨congrArg Run.outcome run, congrArg Run.board run⟩

theorem update (v : Revision) : ∃ wrote, (d.update v.field v.bits).run.Yields
    ⟨f, .never, hosts⟩ (.ok wrote) ⟨v.apply f, .never, hosts⟩ := by
  obtain ⟨wrote, events, run, -⟩ := run_update d v (Faults.none_spares _) f hosts
  exact ⟨wrote, congrArg Run.outcome run, congrArg Run.board run⟩

end Program.Yields

namespace Charger

open Program (Yields)

/-! ## The limits -/

/-- A limit that can be changed while the board runs. -/
inductive Limit where
  | charge
  | adapter
  | vbus
  deriving DecidableEq, Repr

namespace Limit

def field : Limit → Chip.Field
  | charge => Field.chargeCurrent
  | adapter => Field.adapterLimit
  | vbus => Field.vbusLimit

/-- Microamperes of a code, zero standing for no limit. -/
def read : Limit → UInt8 → Nat
  | charge, byte => Current.decode byte
  | adapter, byte => Current.decode byte
  | vbus, byte => (VbusLimit.ofCode byte).microamps

/-- What the registers hold for the limit. -/
def value (l : Limit) (f : RegisterFile) : Nat := l.read (f.get l.field.register)

def code : Limit → Nat → UInt8
  | charge, ua => Current.encode ua
  | adapter, ua => Current.encode ua
  | vbus, ua => (VbusLimit.ofMicroamps ua).code

/-- Codes of a current are for signed words, and a greater request is taken for the greatest. -/
def saturated (ua : UInt32) : Int := min ua.toNat Int32.maxValue.toInt

/-- What is read back after a request. -/
def quantised : Limit → UInt32 → Nat
  | charge, ua => Current.decode (Current.encode (saturated ua))
  | adapter, ua => Current.decode (Current.encode (saturated ua))
  | vbus, ua => if ua.toNat < 900000 then 500000 else if ua.toNat < 1500000 then 900000 else 0

/-- Operations that may change the limit. To look for the source is one of them for VBUS. -/
def SetBy : Limit → Operation → Prop
  | charge, .setChargeCurrent _ => True
  | adapter, .setInputLimit .adapter _ => True
  | vbus, .setInputLimit .usb _ => True
  | vbus, .powerSource => True
  | vbus, .report => True
  | _, _ => False

def fields : List Chip.Field := [Field.chargeCurrent, Field.adapterLimit, Field.vbusLimit]

theorem field_mem (l : Limit) : l.field ∈ fields := by cases l <;> simp [field, fields]

theorem fields_apart {k l : Limit} (h : k ≠ l) : k.field.Apart l.field := by
  cases k <;> cases l <;> first | exact absurd rfl h | decide

/-- A register with no limit in it. -/
def Elsewhere (r : UInt8) : Prop := ∀ a ∈ fields, a.register ≠ r

instance (r : UInt8) : Decidable (Elsewhere r) :=
  inferInstanceAs (Decidable (∀ a ∈ fields, a.register ≠ r))

theorem code_within (l : Limit) (ua : Nat) : l.code ua &&& ~~~l.field.mask = 0 := by
  cases l with
  | charge => exact Current.encode_within ua
  | adapter => exact Current.encode_within ua
  | vbus => exact VbusLimit.code_within _

/-- The rest of the register does not matter. -/
theorem read_and (l : Limit) (byte : UInt8) : l.read (byte &&& l.field.mask) = l.read byte := by
  have mask (a b : UInt8) : a &&& b &&& b = a &&& b := by
    rw [UInt8.and_assoc, UInt8.and_self]
  cases l with
  | charge => exact congrArg (fun code : UInt8 => (code.toNat * 150 + 300) * 1000) (mask byte _)
  | adapter => exact congrArg (fun code : UInt8 => (code.toNat * 150 + 300) * 1000) (mask byte _)
  | vbus =>
    change (VbusLimit.ofCode (byte &&& VbusLimit.mask)).microamps = _
    rw [VbusLimit.ofCode, mask]
    rfl

theorem value_congr {l : Limit} {f g : RegisterFile} (h : AgreeOn [l.field] f g) :
    l.value f = l.value g := by
  have bits := h l.field List.mem_cons_self
  rw [value, value, ← l.read_and, bits, l.read_and]

/-- Beyond signed words the code is the greatest anyway. -/
theorem encode_saturated (ua : UInt32) :
    Current.encode (saturated ua) = Current.encode ua.toNat := by
  have greatest : Int32.maxValue.toInt = 2147483647 := rfl
  by_cases fits : (ua.toNat : Int) ≤ 2147483647
  · have same : saturated ua = ua.toNat := by
      rw [saturated, greatest]
      omega
    rw [same]
  · have most : saturated ua = 2147483647 := by
      rw [saturated, greatest]
      omega
    rw [most]
    unfold Current.encode Current.least Current.greatest
    rw [if_neg (by decide), if_pos (by decide), if_neg (by omega), if_pos (by omega)]

theorem read_code (l : Limit) (ua : UInt32) : l.read (l.code ua.toNat) = l.quantised ua := by
  cases l with
  | charge => exact congrArg Current.decode (encode_saturated ua).symm
  | adapter => exact congrArg Current.decode (encode_saturated ua).symm
  | vbus =>
    change (VbusLimit.ofCode (VbusLimit.ofMicroamps ua.toNat).code).microamps =
      if ua.toNat < 900000 then 500000 else if ua.toNat < 1500000 then 900000 else 0
    unfold VbusLimit.ofMicroamps
    by_cases low : ua.toNat < 900000
    · rw [if_pos low, if_pos low]
      rfl
    · rw [if_neg low, if_neg low]
      by_cases middle : ua.toNat < 1500000
      · rw [if_pos middle, if_pos middle]
        rfl
      · rw [if_neg middle, if_neg middle]
        rfl

end Limit

/-! ## The panel -/

/-- What may be asked of the charger once it is set up: anything but to be probed. -/
abbrev Call := {op : Operation // op ≠ .probe}

/-- Three cells, one for each limit, and what the host detector is going to answer. -/
structure Panel where
  cells : Limit → Nat
  hosts : Nat → Bool

namespace Panel

def put (p : Panel) (l : Limit) (ua : Nat) : Panel :=
  { p with cells := fun k => if k = l then ua else p.cells k }

/-- Look for the source in use. The VBUS limit follows it, unless that is the adapter input. -/
def find (p : Panel) (c : Charger) (status : UInt8) : PowerSource × Panel :=
  if StatusBit.adapterPresent.isSet status then
    (.adapter, p)
  else if StatusBit.vbusPresent.isSet status then
    match c.detection with
    | .absent => (.usb, p.put .vbus 500000)
    | .assumed => (.usb, p.put .vbus 500000)
    | .probed =>
        let rest := { p with hosts := fun n => p.hosts (n + 1) }
        if p.hosts 0 then (.usb, rest.put .vbus 500000) else (.adapter, rest.put .vbus 900000)
  else
    (.none, p.put .vbus 500000)

/-- A measured word. -/
def word (f : RegisterFile) (high : UInt8) : UInt16 :=
  Measurement.join (f.get high) (f.get (high + 1))

def battery (f : RegisterFile) : Nat :=
  Measurement.batteryMillivolts (word f Register.batteryVoltageHigh)

def percent (f : RegisterFile) : UInt8 := f.get Field.percent.register &&& Field.percent.mask

def report (p : Panel) (f : RegisterFile) (source : PowerSource) : Report where
  source
  batteryMillivolts := battery f
  percent := percent f
  chargeMilliamps := p.cells .charge / 1000
  adapterMilliamps := p.cells .adapter / 1000
  vbusMilliamps := if p.cells .vbus / 1000 = 0 then none else some (p.cells .vbus / 1000)

/-- What a call is answered, and the panel after it. All that is measured is found in `f`. -/
def step (p : Panel) (c : Charger) (f : RegisterFile) : Call → Except ChipError Reply × Panel
  | ⟨.probe, no_probe⟩ => absurd rfl no_probe
  | ⟨.batteryMicrovolts, _⟩ => (.ok (.number (battery f * 1000)), p)
  | ⟨.percent, _⟩ => (.ok (.number (percent f).toNat), p)
  | ⟨.openMillivolts, _⟩ =>
      (.ok (.number (Measurement.openMillivolts (word f Register.openVoltageHigh))), p)
  | ⟨.chargeMilliamps, _⟩ =>
      (.ok (.number (Measurement.chargeMilliamps (word f Register.chargeCurrentHigh))), p)
  | ⟨.dischargeMilliamps, _⟩ =>
      (.ok (.number (Measurement.dischargeMilliamps (word f Register.dischargeCurrentHigh))), p)
  | ⟨.powerSource, _⟩ =>
      let found := p.find c (f.get Register.inputStatus)
      (.ok (.source found.1), found.2)
  | ⟨.chargeCurrent, _⟩ => (.ok (.number (p.cells .charge)), p)
  | ⟨.setChargeCurrent ua, _⟩ => (.ok .nothing, p.put .charge (Limit.charge.quantised ua))
  | ⟨.inputLimit .adapter, _⟩ => (.ok (.number (p.cells .adapter)), p)
  | ⟨.inputLimit .usb, _⟩ => (.ok (.number (p.cells .vbus)), p)
  | ⟨.inputLimit .none, _⟩ => (.error .invalidInput, p)
  | ⟨.setInputLimit .adapter ua, _⟩ => (.ok .nothing, p.put .adapter (Limit.adapter.quantised ua))
  | ⟨.setInputLimit .usb ua, _⟩ => (.ok .nothing, p.put .vbus (Limit.vbus.quantised ua))
  | ⟨.setInputLimit .none _, _⟩ => (.error .invalidInput, p)
  | ⟨.report, _⟩ =>
      let found := p.find c (f.get Register.inputStatus)
      (.ok (.report (found.2.report f found.1)), found.2)

/-- The answers to calls made one after another, and the panel after all of them. -/
def steps (p : Panel) (c : Charger) (f : RegisterFile) :
    List Call → List (Except ChipError Reply) × Panel
  | [] => ([], p)
  | call :: calls =>
      let first := p.step c f call
      let rest := first.2.steps c f calls
      (first.1 :: rest.1, rest.2)

section
variable {p : Panel} {c : Charger} {f : RegisterFile} {l : Limit}

theorem find_spares (h : l ≠ .vbus) (status : UInt8) :
    (p.find c status).2.cells l = p.cells l := by
  have put (q : Panel) (ua : Nat) : (q.put .vbus ua).cells l = q.cells l := if_neg h
  unfold find
  split
  · rfl
  · split
    · split
      · exact put p 500000
      · exact put p 500000
      · dsimp only
        split
        · exact put _ 500000
        · exact put _ 900000
    · exact put p 500000

/-- The cells are independent of each other. -/
theorem step_spares {call : Call} (h : ¬ l.SetBy call.val) :
    (p.step c f call).2.cells l = p.cells l := by
  obtain ⟨op, no_probe⟩ := call
  cases op with
  | probe => exact absurd rfl no_probe
  | setChargeCurrent ua =>
    cases l with
    | charge => exact absurd trivial h
    | adapter | vbus => rfl
  | setInputLimit source ua =>
    cases source with
    | none => rfl
    | adapter =>
      cases l with
      | adapter => exact absurd trivial h
      | charge | vbus => rfl
    | usb =>
      cases l with
      | vbus => exact absurd trivial h
      | charge | adapter => rfl
  | inputLimit source => cases source <;> rfl
  | powerSource | report =>
    have other : l ≠ .vbus := by
      rintro rfl
      exact h trivial
    exact find_spares other _
  | _ => rfl

theorem steps_spare {late : List Call} (h : ∀ call ∈ late, ¬ l.SetBy call.val) :
    (p.steps c f late).2.cells l = p.cells l := by
  induction late generalizing p with
  | nil => rfl
  | cons call late ih =>
    obtain ⟨hcall, hlate⟩ := List.forall_mem_cons.mp h
    exact (ih hlate).trans (step_spares hcall)

theorem steps_append (p : Panel) (c : Charger) (f : RegisterFile) (early late : List Call) :
    (p.steps c f (early ++ late)).2 = ((p.steps c f early).2.steps c f late).2 := by
  induction early generalizing p with
  | nil => rfl
  | cons call early ih => exact ih (p.step c f call).2

end

/-- The panel of a chip: each cell holds what its field stands for. -/
def ofRegisters (f : RegisterFile) (hosts : Nat → Bool) : Panel := ⟨fun l => l.value f, hosts⟩

/-- The registers hold what the cells say, and are otherwise as in `f`. -/
structure Shows (p : Panel) (f g : RegisterFile) : Prop where
  cells : ∀ l : Limit, l.value g = p.cells l
  outside : AgreeOutside Limit.fields f g

variable {p : Panel} {f g : RegisterFile}

theorem shows_ofRegisters (f : RegisterFile) (hosts : Nat → Bool) :
    (ofRegisters f hosts).Shows f f :=
  ⟨fun _ => rfl, .refl _ f⟩

theorem Shows.get_eq (h : p.Shows f g) {r : UInt8} (elsewhere : Limit.Elsewhere r) :
    g.get r = f.get r := by
  have agree : AgreeOn [Field.whole r] f g := by
    apply h.outside.agreeOn
    intro a ha b hb same
    obtain rfl := List.mem_singleton.mp hb
    exact absurd same (elsewhere a ha)
  exact (agree.get_eq (Field.inside_of_mem List.mem_cons_self)).symm

/-- To revise the field of a limit is to put a number in its cell. -/
theorem Shows.put (h : p.Shows f g) {l : Limit} {v : Revision} (own : v.field = l.field) :
    (p.put l (l.read v.bits)).Shows f (v.apply g) := by
  have inside {fields : List Chip.Field} (mem : l.field ∈ fields) : v.field.Inside fields :=
    own ▸ Field.inside_of_mem mem
  constructor
  · intro k
    change _ = if k = l then _ else _
    by_cases same : k = l
    · subst same
      have holds : (v.apply g).get k.field.register &&& k.field.mask = v.bits :=
        own ▸ v.holds_apply g
      rw [if_pos rfl, Limit.value, ← k.read_and, holds]
    · rw [if_neg same, ← h.cells k]
      have changed : AgreeOutside [l.field] g (v.apply g) :=
        RegisterFile.agreeOutside_apply (inside List.mem_cons_self) g
      have spared : AgreeOn [k.field] g (v.apply g) := by
        apply changed.agreeOn
        intro a ha b hb
        obtain rfl := List.mem_singleton.mp ha
        obtain rfl := List.mem_singleton.mp hb
        exact Limit.fields_apart (Ne.symm same)
      exact (Limit.value_congr spared).symm
  · exact h.outside.trans (RegisterFile.agreeOutside_apply (inside l.field_mem) g)

end Panel

/-! ## The chip answers as the panel does -/

namespace Panel

/-- A chip without failures whose detector answers as the panel says. -/
def chip (p : Panel) (g : RegisterFile) : MemoryChip := ⟨g, .never, p.hosts⟩

/-- The access answers with `x` and takes the chip to one that shows the other panel. -/
def Answers {α : Type} (p : Panel) (f g : RegisterFile) (a : Access α) (x : Except ChipError α)
    (p' : Panel) : Prop :=
  ∃ g', a.run.Yields (p.chip g) x (p'.chip g') ∧ p'.Shows f g'

variable {α β : Type} {p p' p'' : Panel} {f g : RegisterFile} {x : α}

theorem Answers.andThen {a : Access α} {k : α → Access β} {y : Except ChipError β}
    (first : p.Answers f g a (.ok x) p')
    (rest : ∀ g', p'.Shows f g' → p'.Answers f g' (k x) y p'') :
    p.Answers f g (a >>= k) y p'' := by
  obtain ⟨g', yields, shown'⟩ := first
  obtain ⟨g'', yields', shown''⟩ := rest g' shown'
  exact ⟨g'', yields.andThen yields', shown''⟩

theorem Answers.result {a : Access α} (h : p.Answers f g a (.ok x) p') (of : α → β) :
    p.Answers f g (of <$> a) (.ok (of x)) p' := by
  obtain ⟨g', yields, shown'⟩ := h
  exact ⟨g', yields.result of, shown'⟩

/-- The same question again and again. -/
theorem answers_collect {ι : Type} {a : Access α} (h : ∀ g, p.Shows f g → p.Answers f g a (.ok x) p)
    (shown : p.Shows f g) (xs : List ι) :
    p.Answers f g (xs.mapM fun _ => a) (.ok (xs.map fun _ => x)) p := by
  induction xs generalizing g with
  | nil => exact ⟨g, .returns [] _, shown⟩
  | cons _ xs ih =>
    rw [List.mapM_cons]
    apply (h g shown).andThen
    intro g' shown'
    exact (ih shown').andThen fun g'' shown'' => ⟨g'', .returns _ _, shown''⟩

namespace Shows

theorem returns (h : p.Shows f g) (x : α) : p.Answers f g (pure x) (.ok x) p :=
  ⟨g, .returns x _, h⟩

theorem throws (h : p.Shows f g) (e : ChipError) :
    p.Answers f g (throw e : Access α) (.error e) p :=
  ⟨g, ⟨rfl, rfl⟩, h⟩

theorem lift (h : p.Shows f g) (a : Program α) (p' : Panel)
    (yields : a.Yields (p.chip g) x (p'.chip g)) (same : p'.cells = p.cells) :
    p.Answers f g (liftM a) (.ok x) p' :=
  ⟨g, yields.lift, fun l => same ▸ h.cells l, h.outside⟩

/-- A register apart from the limits is read as it was at first. -/
theorem readByte (h : p.Shows f g) {r : UInt8} (elsewhere : Limit.Elsewhere r) :
    p.Answers f g (device.readByte r) (.ok (f.get r)) p :=
  ⟨g, h.get_eq elsewhere ▸ .readByte device g p.hosts r, h⟩

theorem get (h : p.Shows f g) (l : Limit) :
    p.Answers f g (l.read <$> device.readByte l.field.register) (.ok (p.cells l)) p :=
  ⟨g, h.cells l ▸ (Yields.readByte device g p.hosts l.field.register).result l.read, h⟩

theorem update (h : p.Shows f g) (l : Limit) (v : Revision) (own : v.field = l.field) :
    ∃ wrote, p.Answers f g (device.update v.field v.bits) (.ok wrote)
      (p.put l (l.read v.bits)) := by
  obtain ⟨wrote, yields⟩ := Yields.update device g p.hosts v
  exact ⟨wrote, v.apply g, yields, h.put own⟩

theorem set (h : p.Shows f g) (l : Limit) (ua : Nat) :
    p.Answers f g (device.update l.field (l.code ua) >>= fun _ => pure ()) (.ok ())
      (p.put l (l.read (l.code ua))) := by
  obtain ⟨wrote, written⟩ := h.update l ⟨l.field, l.code ua, l.code_within ua⟩ rfl
  exact written.andThen fun g' h' => h'.returns ()

theorem setVbusLimit (h : p.Shows f g) (limit : VbusLimit) (x : α) :
    p.Answers f g (Charger.setVbusLimit limit >>= fun _ => pure x) (.ok x)
      (p.put .vbus limit.microamps) := by
  obtain ⟨wrote, written⟩ := h.update .vbus ⟨Field.vbusLimit, limit.code, limit.code_within⟩ rfl
  have stands : Limit.vbus.read limit.code = limit.microamps := by cases limit <;> rfl
  rw [stands] at written
  exact written.andThen fun g' h' => h'.returns x

/-- Looking for the source. -/
theorem powerSource (h : p.Shows f g) (c : Charger) :
    p.Answers f g (Charger.powerSource c) (.ok (p.find c (f.get Register.inputStatus)).1)
      (p.find c (f.get Register.inputStatus)).2 := by
  have elsewhere : Limit.Elsewhere Register.inputStatus := by decide
  apply (h.readByte elsewhere).andThen
  intro g' h'
  generalize f.get Register.inputStatus = status
  unfold find
  by_cases adapter : StatusBit.adapterPresent.isSet status
  · rw [if_pos adapter, if_pos adapter]
    exact h'.returns _
  · rw [if_neg adapter, if_neg adapter]
    by_cases vbus : StatusBit.vbusPresent.isSet status
    · rw [if_pos vbus, if_pos vbus]
      unfold hostPresent
      cases c.detection with
      | absent | assumed =>
        have present := h'.lift (pure true) p ⟨rfl, rfl⟩ rfl
        exact present.andThen fun _ h'' => h''.setVbusLimit .half _
      | probed =>
        let rest : Panel := { p with hosts := fun n => p.hosts (n + 1) }
        have asked := h'.lift (Program.detectHost c.settings.hostTimeoutMs) rest
          ⟨rfl, rfl⟩ rfl
        apply asked.andThen
        intro g'' h''
        change rest.Answers f g'' (if p.hosts 0 then _ else _) _ _
        dsimp only
        cases p.hosts 0 with
        | true => exact h''.setVbusLimit .half _
        | false => exact h''.setVbusLimit .full _
    · rw [if_neg vbus, if_neg vbus]
      exact h'.setVbusLimit .half _

theorem measure (h : p.Shows f g) (high : UInt8) (first : Limit.Elsewhere high)
    (second : Limit.Elsewhere (high + 1)) :
    p.Answers f g (Charger.measure high) (.ok (word f high)) p :=
  (h.readByte first).andThen fun _ h' => (h'.readByte second).andThen fun _ h'' => h''.returns _

theorem percent (h : p.Shows f g) : p.Answers f g Charger.percent (.ok (Panel.percent f)) p := by
  have elsewhere : Limit.Elsewhere Field.percent.register := by decide
  exact (h.readByte elsewhere).result (· &&& Field.percent.mask)

theorem batteryMicrovolts (h : p.Shows f g) :
    p.Answers f g Charger.batteryMicrovolts (.ok (battery f * 1000)) p := by
  have sample (g : RegisterFile) (h : p.Shows f g) :
      p.Answers f g sampleBattery (.ok (battery f)) p := by
    have waited := h.lift (Program.wait sampleInterval) p ⟨rfl, rfl⟩ rfl
    apply waited.andThen
    intro g' h'
    have word := h'.measure Register.batteryVoltageHigh (by decide) (by decide)
    exact word.result Measurement.batteryMillivolts
  have mean (mv : Nat) : ([mv, mv, mv, mv, mv] : List Nat).foldl (· + ·) 0 / sampleCount * 1000 =
      mv * 1000 := by
    simp only [List.foldl_cons, List.foldl_nil, sampleCount]
    omega
  rw [← mean]
  exact (answers_collect sample h (List.range sampleCount)).andThen fun _ h' => h'.returns _

theorem collect (h : p.Shows f g) (c : Charger) :
    let found := p.find c (f.get Register.inputStatus)
    p.Answers f g (Report.collect c) (.ok (found.2.report f found.1)) found.2 := by
  intro found
  apply (h.powerSource c).andThen
  intro g₁ h₁
  apply h₁.batteryMicrovolts.andThen
  intro g₂ h₂
  apply h₂.percent.andThen
  intro g₃ h₃
  apply (h₃.get .charge).andThen
  intro g₄ h₄
  apply (h₄.get .adapter).andThen
  intro g₅ h₅
  apply (h₅.get .vbus).andThen
  intro g₆ h₆
  have whole : battery f * 1000 / 1000 = battery f := Nat.mul_div_cancel _ (by decide)
  rw [whole]
  exact h₆.returns _

/-- Each call is answered as the panel answers it. -/
theorem step (h : p.Shows f g) (c : Charger) (call : Call) :
    p.Answers f g (call.val.perform c) (p.step c f call).1 (p.step c f call).2 := by
  obtain ⟨op, no_probe⟩ := call
  cases op with
  | probe => exact absurd rfl no_probe
  | batteryMicrovolts => exact h.batteryMicrovolts.result Reply.number
  | percent => exact h.percent.result fun byte => Reply.number byte.toNat
  | openMillivolts =>
    have word := h.measure Register.openVoltageHigh (by decide) (by decide)
    exact (word.result Measurement.openMillivolts).result Reply.number
  | chargeMilliamps =>
    have word := h.measure Register.chargeCurrentHigh (by decide) (by decide)
    exact (word.result Measurement.chargeMilliamps).result Reply.number
  | dischargeMilliamps =>
    have word := h.measure Register.dischargeCurrentHigh (by decide) (by decide)
    exact (word.result Measurement.dischargeMilliamps).result Reply.number
  | powerSource => exact (h.powerSource c).result Reply.source
  | chargeCurrent => exact (h.get .charge).result Reply.number
  | setChargeCurrent ua =>
    have written := h.set .charge ua.toNat
    rw [Limit.read_code] at written
    exact written.andThen fun _ h' => h'.returns Reply.nothing
  | inputLimit source =>
    cases source with
    | none => exact h.throws ChipError.invalidInput
    | adapter => exact (h.get .adapter).result Reply.number
    | usb => exact (h.get .vbus).result Reply.number
  | setInputLimit source ua =>
    cases source with
    | none => exact h.throws ChipError.invalidInput
    | adapter =>
      have written := h.set .adapter ua.toNat
      rw [Limit.read_code] at written
      exact written.andThen fun _ h' => h'.returns Reply.nothing
    | usb =>
      have written := h.set .vbus ua.toNat
      rw [Limit.read_code] at written
      exact written.andThen fun _ h' => h'.returns Reply.nothing
  | report =>
    let found := p.find c (f.get Register.inputStatus)
    let r := found.2.report f found.1
    apply (h.collect c).andThen
    intro g' h'
    have logged := h'.lift r.log found.2 ⟨rfl, rfl⟩ rfl
    exact logged.andThen fun _ h'' => h''.returns (Reply.report r)

/-- So are calls made one after another. -/
theorem steps (h : p.Shows f g) (c : Charger) (calls : List Call) :
    ∃ g', (FrontEnds.performCharger c (calls.map Subtype.val)).Yields (p.chip g)
        (p.steps c f calls).1 ((p.steps c f calls).2.chip g') ∧
      (p.steps c f calls).2.Shows f g' := by
  induction calls generalizing p g with
  | nil => exact ⟨g, ⟨rfl, rfl⟩, h⟩
  | cons call calls ih =>
    obtain ⟨g', first, h'⟩ := h.step c call
    obtain ⟨g'', rest, h''⟩ := ih h'
    exact ⟨g'', .mapM_cons first rest, h''⟩

end Shows
end Panel

/-- Between probes, on any register contents and for any answers of the host detector, calls are
answered as three cells answer them that start at what the registers hold. Afterwards the registers
hold what the cells do, each at what the last call that may set it left it at, and all bits outside
of the three fields are as they were. A limit of no source is refused before the chip is looked
at. -/
theorem limits_are_cells (c : Charger) (f : RegisterFile) (hosts : Nat → Bool)
    (calls : List Call) :
    let m : MemoryChip := ⟨f, .never, hosts⟩
    let start := Panel.ofRegisters f hosts
    let ends := start.steps c f calls
    (∃ g, (FrontEnds.performCharger c (calls.map Subtype.val)).Yields m ends.1
        ⟨g, .never, ends.2.hosts⟩ ∧
      (∀ l : Limit, l.value g = ends.2.cells l) ∧ AgreeOutside Limit.fields f g) ∧
    (∀ early late, calls = early ++ late → ∀ l : Limit, (∀ call ∈ late, ¬ l.SetBy call.val) →
      ends.2.cells l = (start.steps c f early).2.cells l) ∧
    ∀ n : MemoryChip, n.run (inputLimit .none) = ⟨.ok (.error .invalidInput), [], n⟩ ∧
      ∀ ua, n.run (setInputLimit .none ua) = ⟨.ok (.error .invalidInput), [], n⟩ := by
  intro m start ends
  refine ⟨?_, ?_, fun n => ⟨rfl, fun ua => rfl⟩⟩
  · obtain ⟨g, yields, shown⟩ := (Panel.shows_ofRegisters f hosts).steps c calls
    exact ⟨g, yields, shown.cells, shown.outside⟩
  · rintro early late rfl l spared
    change (start.steps c f (early ++ late)).2.cells l = _
    rw [Panel.steps_append, Panel.steps_spare spared]

end Charger
end Bringup
