import Bringup.Proofs.BatterySamples
import Bringup.Proofs.LimitCells
import Bringup.Proofs.RoundedCodes
import Bringup.Proofs.Triple

/-! The report on the charger and the registers that it leaves behind. To find the source may take
a change of the VBUS limit, which the report then shows. All the rest of it is found by looking. -/
namespace Bringup

open Bench (Faults MemoryChip RegisterFile)
open Chip

/-! ## Looking -/

/-- To read from the bus, and what goes with it. -/
def Request.Looks : Request → Prop
  | .busRead .. => True
  | .wait _ => True
  | .log _ => True
  | _ => False

/-- How long the host detector was told to wait. -/
def Event.asked? : Event → Option Nat
  | ⟨.detectHost ms, _⟩ => some ms
  | _ => none

theorem Event.of_looks {e : Event} (h : e.request.Looks) : e.write? = none ∧ e.asked? = none := by
  obtain ⟨request, answer⟩ := e
  cases request with
  | busRead | wait | log => exact ⟨rfl, rfl⟩
  | _ => exact absurd h id

namespace Program.Only

variable {α : Type} {p : Program α}

/-- Looking leaves a chip without failures as it is. -/
theorem unmoved (h : p.Only Request.Looks) (f : RegisterFile) (hosts : Nat → Bool) :
    (p.run MemoryChip.board ⟨f, .never, hosts⟩).board = ⟨f, .never, hosts⟩ := by
  induction p with
  | done => rfl
  | fault => exact absurd h id
  | ask r next ih =>
    obtain ⟨looks, others⟩ := h
    cases r with
    | busRead | wait | log => exact ih _ (others _)
    | _ => exact absurd looks id

theorem unseen (h : p.Only Request.Looks) (m : MemoryChip) :
    (p.run MemoryChip.board m).events.filterMap Event.write? = [] ∧
    (p.run MemoryChip.board m).events.filterMap Event.asked? = [] := by
  obtain ⟨-, -, looks⟩ := h.ends MemoryChip.board m
  exact ⟨List.filterMap_eq_nil_iff.mpr fun e he => (Event.of_looks (looks e he)).1,
    List.filterMap_eq_nil_iff.mpr fun e he => (Event.of_looks (looks e he)).2⟩

end Program.Only

namespace Charger

open Program (Only)

/-! ## The source and its limit -/

def VbusLimit.revision (limit : VbusLimit) : Revision :=
  ⟨Field.vbusLimit, limit.code, limit.code_within⟩

theorem adapterPresent_iff {status : UInt8} :
    StatusBit.adapterPresent.isSet status ↔ status &&& 0x80 ≠ 0 := bne_iff_ne

theorem vbusPresent_iff {status : UInt8} :
    StatusBit.vbusPresent.isSet status ↔ status &&& 0x20 ≠ 0 := bne_iff_ne

/-- Whether there is a host, given what a detector would answer. -/
def seesHost (c : Charger) (answer : Bool) : Bool :=
  match c.detection with
  | .absent => true
  | .assumed => true
  | .probed => answer

/-- The source that a status stands for, and the limit that is set for it. -/
def finding (c : Charger) (status : UInt8) (answer : Bool) : PowerSource × Option VbusLimit :=
  if StatusBit.adapterPresent.isSet status then
    (.adapter, none)
  else if StatusBit.vbusPresent.isSet status then
    if c.seesHost answer then (.usb, some .half) else (.adapter, some .full)
  else
    (.none, some .half)

/-- The registers once the limit is set. -/
def settle (limit : Option VbusLimit) (f : RegisterFile) : RegisterFile :=
  Revision.applyAll (limit.toList.map VbusLimit.revision) f

/-- What the detector is asked where VBUS alone is there. -/
def question (c : Charger) : List Nat :=
  match c.detection with
  | .absent => []
  | .assumed => []
  | .probed => [c.settings.hostTimeoutMs]

/-- What the detector is asked in a status. -/
def asking (c : Charger) (status : UInt8) : List Nat :=
  if StatusBit.adapterPresent.isSet status then []
  else if StatusBit.vbusPresent.isSet status then c.question
  else []

/-- On a chip without failures the access comes to the value, asks the detector as told, and
leaves the limit behind. It writes nothing where the limit stands already. -/
def Settles {α : Type} (f : RegisterFile) (hosts : Nat → Bool) (a : Access α) (x : α)
    (limit : Option VbusLimit) (asked : List Nat) : Prop :=
  ∃ events hosts', MemoryChip.run ⟨f, .never, hosts⟩ a =
      ⟨.ok (.ok x), events, ⟨settle limit f, .never, hosts'⟩⟩ ∧
    events.filterMap Event.asked? = asked ∧
    ((∀ l ∈ limit, l.revision.Holds f) → events.filterMap Event.write? = [])

namespace Settles

variable {α β : Type} {f : RegisterFile} {hosts hosts' : Nat → Bool} {x : α}
  {limit : Option VbusLimit} {asked : List Nat}

theorem returns (x : α) : Settles f hosts (pure x) x none [] :=
  ⟨[], hosts, rfl, rfl, fun _ => rfl⟩

/-- What comes before has left the registers alone. -/
theorem after {p : Access β} {k : β → Access α} {y : β} {events : List Event}
    (first : MemoryChip.run ⟨f, .never, hosts⟩ p = ⟨.ok (.ok y), events, ⟨f, .never, hosts'⟩⟩)
    (unwritten : events.filterMap Event.write? = [])
    (rest : Settles f hosts' (k y) x limit asked) :
    Settles f hosts (p >>= k) x limit (events.filterMap Event.asked? ++ asked) := by
  obtain ⟨events', hosts'', run, rfl, quiet⟩ := rest
  refine ⟨events ++ events', hosts'', ?_, List.filterMap_append, fun holds => ?_⟩
  · rw [MemoryChip.run_bind, first, Program.Run.andThen_ok]
    dsimp only
    rw [run]
  · rw [List.filterMap_append, unwritten, quiet holds]
    rfl

theorem look {k : UInt8 → Access α} (r : UInt8)
    (rest : Settles f hosts (k (f.get r)) x limit asked) :
    Settles f hosts (device.readByte r >>= k) x limit asked :=
  after (MemoryChip.run_readByte device (Faults.none_spares r .read) f hosts) rfl rest

theorem host {k : Bool → Access α} (c : Charger)
    (rest : ∀ hosts', Settles f hosts' (k (c.seesHost (hosts 0))) x limit []) :
    Settles f hosts (liftM (hostPresent c) >>= k) x limit c.question := by
  have found : ∃ events hosts', MemoryChip.run ⟨f, .never, hosts⟩ (liftM (hostPresent c)) =
        ⟨.ok (.ok (c.seesHost (hosts 0))), events, ⟨f, .never, hosts'⟩⟩ ∧
      events.filterMap Event.asked? = c.question ∧ events.filterMap Event.write? = [] := by
    unfold hostPresent seesHost question
    cases c.detection with
    | absent | assumed => exact ⟨[], hosts, rfl, rfl, rfl⟩
    | probed => exact ⟨_, _, rfl, rfl, rfl⟩
  obtain ⟨events, hosts', run, asked, unwritten⟩ := found
  have settled := after run unwritten (rest hosts')
  rw [asked, List.append_nil] at settled
  exact settled

theorem limited (limit : VbusLimit) (x : α) :
    Settles f hosts (do let _ ← setVbusLimit limit; return x) x (some limit) [] := by
  have spares := Faults.none_spares limit.revision.field.register
  have updated : ∃ wrote, Settles f hosts (setVbusLimit limit) wrote (some limit) [] := by
    by_cases holds : limit.revision.Holds f
    · have same : settle (some limit) f = f := Revision.apply_of_holds holds
      refine ⟨false, [⟨.busRead 0x34 Register.vbus 1, .ok #v[f.get Register.vbus]⟩], hosts, ?_,
        rfl, fun _ => rfl⟩
      rw [same]
      exact run_update_of_holds device spares holds
    · exact ⟨true, _, hosts, run_update_of_not_holds device spares holds, rfl,
        fun h => absurd (h limit rfl) holds⟩
  obtain ⟨wrote, events, hosts', run, unasked, quiet⟩ := updated
  refine ⟨events, hosts', ?_, unasked, quiet⟩
  rw [← map_eq_pure_bind, MemoryChip.run_map, run]
  rfl

/-- What comes after only looks. -/
theorem andLook {p : Access β} {k : β → Access α} {y : β}
    (first : Settles f hosts p y limit asked) (looks : (k y).run.Only Request.Looks)
    (outcome : (MemoryChip.run ⟨f, .never, hosts⟩ (p >>= k)).outcome = .ok (.ok x)) :
    Settles f hosts (p >>= k) x limit asked := by
  obtain ⟨events, hosts', run, unasked, quiet⟩ := first
  let rest := MemoryChip.run ⟨settle limit f, .never, hosts'⟩ (k y)
  have both : MemoryChip.run ⟨f, .never, hosts⟩ (p >>= k) =
      ⟨rest.outcome, events ++ rest.events, rest.board⟩ := by
    rw [MemoryChip.run_bind, run]
    rfl
  have unwritten : rest.events.filterMap Event.write? = [] := (looks.unseen _).1
  have unasked' : rest.events.filterMap Event.asked? = [] := (looks.unseen _).2
  have board : rest.board = ⟨settle limit f, .never, hosts'⟩ := looks.unmoved _ _
  refine ⟨events ++ rest.events, hosts', ?_, ?_, fun holds => ?_⟩
  · rw [← outcome, both, board]
  · rw [List.filterMap_append, unasked, unasked', List.append_nil]
  · rw [List.filterMap_append, quiet holds]
    exact unwritten

end Settles

/-- The source is told by the status and the detector, which is asked only where VBUS alone is
there, and the limit that suits the source is set. -/
theorem powerSource_settles (c : Charger) (f : RegisterFile) (hosts : Nat → Bool) :
    let found := c.finding (f.get Register.inputStatus) (hosts 0)
    Settles f hosts (powerSource c) found.1 found.2 (c.asking (f.get Register.inputStatus)) := by
  apply Settles.look
  generalize f.get Register.inputStatus = status
  unfold finding asking
  by_cases adapter : StatusBit.adapterPresent.isSet status
  · rw [if_pos adapter, if_pos adapter, if_pos adapter]
    exact .returns _
  · rw [if_neg adapter, if_neg adapter, if_neg adapter]
    by_cases vbus : StatusBit.vbusPresent.isSet status
    · rw [if_pos vbus, if_pos vbus, if_pos vbus]
      refine .host c fun hosts' => ?_
      cases c.seesHost (hosts 0) with
      | true => exact .limited .half _
      | false => exact .limited .full _
    · rw [if_neg vbus, if_neg vbus, if_neg vbus]
      exact .limited .half _

/-! ## The rest of the report -/

/-- What is reported beside the source. -/
def Report.rest (source : PowerSource) : Access Report := do
  let battery ← Charger.batteryMicrovolts
  let percent ← Charger.percent
  let charge ← chargeCurrent
  let adapter ← inputLimit .adapter
  let vbus ← inputLimit .usb
  return {
    source
    batteryMillivolts := battery / 1000
    percent
    chargeMilliamps := charge / 1000
    adapterMilliamps := adapter / 1000
    vbusMilliamps := if vbus / 1000 = 0 then none else some (vbus / 1000) }

theorem Report.collect_eq (c : Charger) : Report.collect c = powerSource c >>= Report.rest := rfl

/-- All the rest takes reads and waits. -/
theorem Report.rest_only {ok : Request → Prop} (logged : ∀ entry, ok (.log entry))
    (waited : ok (.wait sampleInterval)) (asked : ∀ r, ok (.busRead device.address r 1))
    (source : PowerSource) : (Report.rest source).run.Only ok := by
  have byte (r : UInt8) : (device.readByte r).run.Only ok := device.readByte_only logged (asked r)
  have shown {α : Type} (r : UInt8) (g : UInt8 → α) :
      (do return g (← device.readByte r) : Access α).run.Only ok :=
    (byte r).andThen fun _ => .returns _
  have measured : (measure Register.batteryVoltageHigh).run.Only ok :=
    (byte _).andThen fun _ => (byte _).andThen fun _ => .returns _
  have wait : (Program.wait sampleInterval).Only ok := .request waited
  have sample : sampleBattery.run.Only ok :=
    (Only.lift wait).andThen fun _ => measured.andThen fun _ => .returns _
  have battery : batteryMicrovolts.run.Only ok :=
    (Only.collect fun _ _ => sample).andThen fun _ => .returns _
  exact battery.andThen fun _ => (shown _ _).andThen fun _ => (shown _ _).andThen fun _ =>
    (shown _ _).andThen fun _ => (shown _ _).andThen fun _ => .returns _

/-- The limit in milliamperes as it is shown, for a byte of its register. -/
def shownLimit (byte : UInt8) : Option Nat :=
  if byte &&& 0x03 = 0x00 then some 900 else if byte &&& 0x03 = 0x01 then some 500 else none

def VbusLimit.shown : VbusLimit → Option Nat
  | half => some 500
  | full => some 900
  | unlimited => none

/-- What is reported of registers, given what the detector would answer. -/
def reportOf (c : Charger) (f : RegisterFile) (answer : Bool) : Report :=
  let found := c.finding (f.get Register.inputStatus) answer
  { source := found.1
    batteryMillivolts := Panel.battery f
    percent := Panel.percent f
    chargeMilliamps := Limit.charge.value f / 1000
    adapterMilliamps := Limit.adapter.value f / 1000
    vbusMilliamps := found.2.elim (shownLimit (f.get Register.vbus)) VbusLimit.shown }

/-- The panel looks for the source in the same way. -/
theorem find_finding (p : Panel) (c : Charger) (status : UInt8) :
    let found := c.finding status (p.hosts 0)
    (p.find c status).1 = found.1 ∧ (p.find c status).2.cells =
      (found.2.elim p fun limit => p.put .vbus limit.microamps).cells := by
  unfold Panel.find finding seesHost
  by_cases adapter : StatusBit.adapterPresent.isSet status
  · rw [if_pos adapter, if_pos adapter]
    exact ⟨rfl, rfl⟩
  · rw [if_neg adapter, if_neg adapter]
    by_cases vbus : StatusBit.vbusPresent.isSet status
    · rw [if_pos vbus, if_pos vbus]
      cases c.detection with
      | absent | assumed => exact ⟨rfl, rfl⟩
      | probed => dsimp only; split <;> exact ⟨rfl, rfl⟩
    · rw [if_neg vbus, if_neg vbus]
      exact ⟨rfl, rfl⟩

theorem shown_code (byte : UInt8) :
    (if (VbusLimit.ofCode byte).microamps / 1000 = 0 then none
      else some ((VbusLimit.ofCode byte).microamps / 1000)) = shownLimit byte := by
  unfold shownLimit VbusLimit.ofCode VbusLimit.mask VbusLimit.code
  by_cases full : byte &&& 0x03 = 0x00
  · simp [full, VbusLimit.microamps]
  · by_cases half : byte &&& 0x03 = 0x01
    · simp [half, VbusLimit.microamps]
    · simp [full, half, VbusLimit.microamps]

theorem panel_report (c : Charger) (f : RegisterFile) (hosts : Nat → Bool) :
    let found := (Panel.ofRegisters f hosts).find c (f.get Register.inputStatus)
    found.2.report f found.1 = c.reportOf f (hosts 0) := by
  obtain ⟨source, cells⟩ := find_finding (.ofRegisters f hosts) c (f.get Register.inputStatus)
  have answer : (Panel.ofRegisters f hosts).hosts 0 = hosts 0 := rfl
  rw [answer] at source cells
  intro found
  rw [Panel.report, cells, source, reportOf]
  cases (c.finding (f.get Register.inputStatus) (hosts 0)).2 with
  | none => exact congrArg (Report.mk _ _ _ _ _) (shown_code _)
  | some limit =>
    cases limit <;> simp [Panel.put, Panel.ofRegisters, VbusLimit.microamps, VbusLimit.shown]

theorem collect_settles (c : Charger) (f : RegisterFile) (hosts : Nat → Bool) :
    Settles f hosts (Report.collect c) (c.reportOf f (hosts 0))
      (c.finding (f.get Register.inputStatus) (hosts 0)).2
      (c.asking (f.get Register.inputStatus)) := by
  have outcome : (MemoryChip.run ⟨f, .never, hosts⟩ (Report.collect c)).outcome =
      .ok (.ok (c.reportOf f (hosts 0))) := by
    obtain ⟨g, yields, -⟩ := (Panel.shows_ofRegisters f hosts).collect c
    rw [← panel_report]
    exact yields.outcome
  rw [Report.collect_eq] at outcome ⊢
  exact (powerSource_settles c f hosts).andLook
    (Report.rest_only (fun _ => trivial) trivial (fun _ => trivial) _) outcome

/-! ## What is left behind -/

section
variable (limit : Option VbusLimit) (f : RegisterFile)

theorem get_settle {r : UInt8} (h : r ≠ Register.vbus) : (settle limit f).get r = f.get r := by
  refine Revision.get_applyAll_of_ne (fun v hv => ?_) f
  obtain ⟨l, -, rfl⟩ := List.mem_map.mp hv
  exact Ne.symm h

theorem get_settle_vbus :
    (settle limit f).get Register.vbus &&& ~~~0x03 = f.get Register.vbus &&& ~~~0x03 := by
  cases limit with
  | none => rfl
  | some l =>
    have own : (settle (some l) f).get Register.vbus = l.revision.byte (f.get Register.vbus) :=
      (l.revision.get_apply f _).trans (if_pos rfl)
    have apart : ~~~0x03 &&& VbusLimit.mask = 0 := by decide
    rw [own]
    exact l.revision.byte_and_of_disjoint apart _

theorem settle_holds : ∀ l ∈ limit, l.revision.Holds (settle limit f) := by
  rintro l rfl
  exact l.revision.holds_apply f

theorem settle_settle : settle limit (settle limit f) = settle limit f := by
  cases limit with
  | none => rfl
  | some l => exact Revision.apply_of_holds (l.revision.holds_apply f)

end

/-- The report does not depend on whether the limit has been set already. -/
theorem reportOf_settle (c : Charger) (f : RegisterFile) (answer : Bool) :
    c.reportOf (settle (c.finding (f.get Register.inputStatus) answer).2 f) answer =
      c.reportOf f answer := by
  have status (limit : Option VbusLimit) :
      (settle limit f).get Register.inputStatus = f.get Register.inputStatus :=
    get_settle limit f (by decide)
  rw [reportOf, status, reportOf]
  cases (c.finding (f.get Register.inputStatus) answer).2 with
  | none => rfl
  | some limit =>
    have high := get_settle (some limit) f (r := Register.batteryVoltageHigh) (by decide)
    have low := get_settle (some limit) f (r := Register.batteryVoltageHigh + 1) (by decide)
    have percent := get_settle (some limit) f (r := Field.percent.register) (by decide)
    have charge := get_settle (some limit) f (r := Limit.charge.field.register) (by decide)
    have adapter := get_settle (some limit) f (r := Limit.adapter.field.register) (by decide)
    simp only [Panel.battery, Panel.word, Panel.percent, Limit.value, high, low, percent, charge,
      adapter, Option.elim_some]

/-! ## What is reported -/

/-- The numbers of a report are those that the registers hold. -/
structure Report.Reads (r : Report) (g : RegisterFile) : Prop where
  battery : r.batteryMillivolts =
    Measurement.batteryMillivolts (Measurement.join (g.get 0x78) (g.get 0x79))
  percent : r.percent = g.get 0xB9 &&& 0x7F
  charge : r.chargeMilliamps = Current.decode (g.get 0x33) / 1000
  adapter : r.adapterMilliamps = Current.decode (g.get 0x35) / 1000
  vbus : r.vbusMilliamps = shownLimit (g.get 0x30)

theorem shownLimit_of_holds {l : VbusLimit} {g : RegisterFile} (h : l.revision.Holds g) :
    shownLimit (g.get 0x30) = l.shown := by
  have code : g.get 0x30 &&& 0x03 = l.code := h
  rw [shownLimit, code]
  cases l <;> rfl

/-- The limit is among them, be it set for the report or found there. -/
theorem reportOf_reads (c : Charger) (f : RegisterFile) (answer : Bool) :
    (c.reportOf f answer).Reads
      (settle (c.finding (f.get Register.inputStatus) answer).2 f) := by
  have limit : (c.reportOf f answer).vbusMilliamps =
      (c.finding (f.get Register.inputStatus) answer).2.elim (shownLimit (f.get 0x30))
        VbusLimit.shown := rfl
  have vbus : (c.reportOf f answer).vbusMilliamps = shownLimit
      ((settle (c.finding (f.get Register.inputStatus) answer).2 f).get 0x30) := by
    rw [limit]
    cases found : (c.finding (f.get Register.inputStatus) answer).2 with
    | none => rfl
    | some l => exact (shownLimit_of_holds (settle_holds (some l) f l rfl)).symm
  rw [← reportOf_settle] at vbus ⊢
  exact ⟨rfl, rfl, rfl, rfl, vbus⟩

/-- Source and limit of a report go with each other and with the input status. -/
structure Report.Suits (c : Charger) (f g : RegisterFile) (answer : Bool) (r : Report) : Prop where
  input : f.get 0x00 &&& 0x80 ≠ 0 →
    r.source = .adapter ∧ g = f ∧ r.vbusMilliamps = shownLimit (f.get 0x30)
  nothing : f.get 0x00 &&& 0x80 = 0 → f.get 0x00 &&& 0x20 = 0 → r.source = .none
  host : f.get 0x00 &&& 0x80 = 0 → f.get 0x00 &&& 0x20 ≠ 0 → c.seesHost answer → r.source = .usb
  supply : f.get 0x00 &&& 0x80 = 0 → f.get 0x00 &&& 0x20 ≠ 0 → c.seesHost answer = false →
    r.source = .adapter
  ofNone : r.source = .none → r.vbusMilliamps = some 500
  ofUsb : r.source = .usb → r.vbusMilliamps = some 500
  ofAdapter : r.source = .adapter → f.get 0x00 &&& 0x80 = 0 → r.vbusMilliamps = some 900

section
variable {c : Charger} {status : UInt8} {answer : Bool}

theorem finding_input (acen : status &&& 0x80 ≠ 0) :
    c.finding status answer = (.adapter, none) :=
  if_pos (adapterPresent_iff.mpr acen)

theorem finding_nothing (acen : status &&& 0x80 = 0) (usben : status &&& 0x20 = 0) :
    c.finding status answer = (.none, some .half) := by
  simp [finding, adapterPresent_iff, vbusPresent_iff, acen, usben]

theorem finding_vbus (acen : status &&& 0x80 = 0) (usben : status &&& 0x20 ≠ 0) :
    c.finding status answer =
      if c.seesHost answer then (.usb, some .half) else (.adapter, some .full) := by
  simp [finding, adapterPresent_iff, vbusPresent_iff, acen, usben]

end

theorem reportOf_suits (c : Charger) (f : RegisterFile) (answer : Bool) :
    (c.reportOf f answer).Suits c f
      (settle (c.finding (f.get Register.inputStatus) answer).2 f) answer := by
  have source : (c.reportOf f answer).source = (c.finding (f.get 0x00) answer).1 := rfl
  have limit : (c.reportOf f answer).vbusMilliamps =
      (c.finding (f.get 0x00) answer).2.elim (shownLimit (f.get 0x30)) VbusLimit.shown := rfl
  change Report.Suits c f (settle (c.finding (f.get 0x00) answer).2 f) answer _
  by_cases acen : f.get 0x00 &&& 0x80 = 0
  · by_cases usben : f.get 0x00 &&& 0x20 = 0
    · rw [finding_nothing acen usben] at source limit ⊢
      constructor <;> simp [source, limit, acen, usben, VbusLimit.shown]
    · rw [finding_vbus acen usben] at source limit ⊢
      cases host : c.seesHost answer <;> rw [host] at source limit
      · constructor <;> simp [source, limit, acen, usben, host, VbusLimit.shown]
      · constructor <;> simp [source, limit, acen, usben, host, VbusLimit.shown]
  · rw [finding_input acen] at source limit ⊢
    constructor <;> simp [source, limit, acen, settle, Revision.applyAll]

/-- Every code of a current stands for one in range, in whole steps. -/
theorem decode_inRange (byte : UInt8) :
    300 ≤ Current.decode byte / 1000 ∧ Current.decode byte / 1000 ≤ 2550 ∧
      150 ∣ Current.decode byte / 1000 := by
  rw [Current.decode_eq, Nat.mul_div_cancel _ (by decide)]
  omega

/-- The numbers of a report lie in the ranges of the hardware. -/
structure Report.InRange (r : Report) : Prop where
  charge : 300 ≤ r.chargeMilliamps ∧ r.chargeMilliamps ≤ 2550 ∧ 150 ∣ r.chargeMilliamps
  adapter : 300 ≤ r.adapterMilliamps ∧ r.adapterMilliamps ≤ 2550 ∧ 150 ∣ r.adapterMilliamps
  battery : r.batteryMillivolts ≤ 4504

theorem reportOf_inRange (c : Charger) (f : RegisterFile) (answer : Bool) :
    (c.reportOf f answer).InRange :=
  ⟨decode_inRange _, decode_inRange _, Measurement.batteryMillivolts_le _ _⟩

theorem asking_eq (c : Charger) (status : UInt8) :
    c.asking status =
      if c.detection = .probed ∧ status &&& 0x80 = 0 ∧ status &&& 0x20 ≠ 0 then
        [c.settings.hostTimeout.elim 500 fun ms => (max ms.toInt 0).toNat]
      else [] := by
  have timeout : c.settings.hostTimeoutMs =
      c.settings.hostTimeout.elim 500 fun ms => (max ms.toInt 0).toNat := by
    unfold Settings.hostTimeoutMs
    cases c.settings.hostTimeout with
    | none => rfl
    | some ms =>
      change ms.toInt.toNat = (max ms.toInt 0).toNat
      omega
  rw [← timeout]
  unfold asking question
  by_cases acen : status &&& 0x80 = 0
  · by_cases usben : status &&& 0x20 = 0
    · simp [adapterPresent_iff, vbusPresent_iff, acen, usben]
    · cases c.detection <;> simp [adapterPresent_iff, vbusPresent_iff, acen, usben]
  · simp [adapterPresent_iff, acen]

def reportRun (c : Charger) (f : RegisterFile) (hosts : Nat → Bool) :
    Program.Run MemoryChip (Except ChipError Report) :=
  MemoryChip.run ⟨f, .never, hosts⟩ (Report.collect c)

/-- On any registers, for any timeout and any detector: the report suits the input status, its
numbers are read from the registers that it leaves behind, and they are in range. Nothing but the
VBUS limit may have changed. A detector is asked once, for the configured time, where VBUS alone is
there, and never otherwise. A second report with the same answer of the detector is the same and
writes nothing. -/
theorem report_consistent (c : Charger) (f : RegisterFile) (hosts : Nat → Bool) :
    let g := (reportRun c f hosts).board.registers
    ∃ r, (reportRun c f hosts).outcome = .ok (.ok r) ∧ r.Suits c f g (hosts 0) ∧
      r.Reads g ∧ r.InRange ∧
      (∀ reg, reg ≠ 0x30 → g.get reg = f.get reg) ∧
      g.get 0x30 &&& ~~~0x03 = f.get 0x30 &&& ~~~0x03 ∧
      (reportRun c f hosts).events.filterMap Event.asked? =
        (if c.detection = .probed ∧ f.get 0x00 &&& 0x80 = 0 ∧ f.get 0x00 &&& 0x20 ≠ 0 then
          [c.settings.hostTimeout.elim 500 fun ms => (max ms.toInt 0).toNat]
        else []) ∧
      ∀ hosts', hosts' 0 = hosts 0 →
        (reportRun c g hosts').outcome = .ok (.ok r) ∧ (reportRun c g hosts').writes = [] ∧
        (reportRun c g hosts').board.registers = g := by
  let limit := (c.finding (f.get Register.inputStatus) (hosts 0)).2
  obtain ⟨events, later, run, asked, -⟩ := collect_settles c f hosts
  have left : (reportRun c f hosts).board.registers = settle limit f := by
    rw [reportRun, run]
  rw [left]
  refine ⟨c.reportOf f (hosts 0), by rw [reportRun, run], reportOf_suits c f _,
    reportOf_reads c f _, reportOf_inRange c f _, fun reg other => get_settle _ f other,
    get_settle_vbus _ f, ?_, ?_⟩
  · rw [reportRun, run]
    exact asked.trans (asking_eq c _)
  · intro hosts' same
    obtain ⟨events', later', again, -, quiet⟩ := collect_settles c (settle limit f) hosts'
    have status : (settle limit f).get Register.inputStatus = f.get Register.inputStatus :=
      get_settle limit f (by decide)
    rw [same, status] at again quiet
    rw [reportRun, again]
    refine ⟨?_, quiet (settle_holds _ f), settle_settle _ f⟩
    rw [reportOf_settle]

/-- A supply on VBUS without a host behind it, and a detector that is given less than no time. -/
def impatient : Charger := ⟨{ Settings.unset with hostTimeout := some (-5) }, .probed⟩

def supplied : RegisterFile := .set (.set .zero Register.inputStatus 0x20) Register.vbus 0x63

theorem supply_reported_twice :
    let g := (reportRun impatient supplied fun _ => false).board.registers
    ∃ r, (reportRun impatient supplied fun _ => false).outcome = .ok (.ok r) ∧
      r.source = .adapter ∧ r.vbusMilliamps = some 900 ∧
      (reportRun impatient supplied fun _ => false).events.filterMap Event.asked? = [0] ∧
      (reportRun impatient g fun n => n ≠ 0).outcome = .ok (.ok r) ∧
      (reportRun impatient g fun n => n ≠ 0).writes = [] := by
  obtain ⟨r, outcome, suits, -, -, -, -, asked, again⟩ :=
    report_consistent impatient supplied fun _ => false
  have acen : supplied.get 0x00 &&& 0x80 = 0 := by decide
  have usben : supplied.get 0x00 &&& 0x20 ≠ 0 := by decide
  have source := suits.supply acen usben rfl
  have second := again (fun n => n ≠ 0) rfl
  exact ⟨r, outcome, source, suits.ofAdapter source acen, asked, second.1, second.2.1⟩

end Charger

end Bringup
