import Bringup.Chip.Operation
import Bringup.Proofs.ClosedAccess
import Bringup.Proofs.LinkStores
import Bringup.Proofs.PassFailures

/-! Errors of the bus. Whatever hands its error to the caller ends at the first transfer that fails,
and the error says which transfer that was. A board may answer as it likes. -/
namespace Bringup

open Chip

namespace Event

/-- A transfer with the device, whatever came of it. -/
def With (d : Device) : Event → Prop
  | ⟨.busRead address _ _, _⟩ => address = d.address
  | ⟨.busWrite address _ _, _⟩ => address = d.address
  | _ => False

theorem With.isTransfer {d : Device} {e : Event} (h : e.With d) : e.isTransfer = true := by
  obtain ⟨request, answer⟩ := e
  cases request with
  | busRead | busWrite => rfl
  | _ => exact absurd h id

/-- A transfer with the device that went through. -/
def Passed (d : Device) (e : Event) : Prop := e.With d ∧ e.failed = false

/-- What a failed transfer is reported as: the device, the first register, the direction, and the
code that came back. -/
def error? : Event → Option ChipError
  | ⟨.busRead address start _, .error code⟩ => some (.bus address start .read code)
  | ⟨.busWrite address start _, .error code⟩ => some (.bus address start .write code)
  | _ => none

end Event

/-! ## Runs that stop -/

namespace Program.Run

variable {σ α β : Type}

/-- Either every transfer goes through, and if there is an error then it is not one of the bus, or
the last transfer is the first to fail, and the error is the one that names it. -/
inductive StopsAtFailure (d : Device) (r : Run σ (Except ChipError α)) : Prop where
  | through (passed : ∀ e ∈ r.transfers, e.Passed d)
      (outcome : ∀ err, r.outcome = .ok (.error err) → err.isBus = false)
  | failed (before : List Event) (last : Event) (err : ChipError)
      (transfers : r.transfers = before ++ [last]) (passed : ∀ e ∈ before, e.Passed d)
      (device : last.With d) (names : last.error? = some err)
      (outcome : r.outcome = .ok (.error err))

namespace StopsAtFailure

variable {d : Device} {events : List Event} {s : σ}

/-- An error is handed on as it is. -/
theorem handOn {err : ChipError}
    (h : StopsAtFailure d (⟨.ok (.error err), events, s⟩ : Run σ (Except ChipError α))) :
    StopsAtFailure d (⟨.ok (.error err), events, s⟩ : Run σ (Except ChipError β)) := by
  cases h with
  | through passed other =>
    refine .through passed ?_
    intro _ same
    cases same
    exact other err rfl
  | failed before last _ transfers passed device names same =>
    cases same
    exact .failed before last err transfers passed device names rfl

/-- A run that came to a value has met no failure. -/
theorem passed_of_ok {x : α}
    (h : StopsAtFailure d (⟨.ok (.ok x), events, s⟩ : Run σ (Except ChipError α))) :
    ∀ e ∈ events.filter Event.isTransfer, e.Passed d := by
  cases h with
  | through passed => exact passed
  | failed _ _ _ _ _ _ _ same => cases same

theorem after {r : Run σ (Except ChipError α)} (h : r.StopsAtFailure d)
    (earlier : ∀ e ∈ events.filter Event.isTransfer, e.Passed d) :
    StopsAtFailure d (⟨r.outcome, events ++ r.events, r.board⟩ : Run σ (Except ChipError α)) := by
  have joined : (⟨r.outcome, events ++ r.events, r.board⟩ : Run σ (Except ChipError α)).transfers =
      events.filter Event.isTransfer ++ r.transfers := List.filter_append events r.events
  cases h with
  | through passed other =>
    refine .through ?_ other
    rw [joined]
    exact List.forall_mem_append.mpr ⟨earlier, passed⟩
  | failed before last err transfers passed device names outcome =>
    refine .failed (events.filter Event.isTransfer ++ before) last err ?_ ?_ device names outcome
    · rw [joined, transfers, List.append_assoc]
    · exact List.forall_mem_append.mpr ⟨earlier, passed⟩

end StopsAtFailure
end Program.Run

namespace Chip

/-- Run on any board, the access stops at the first transfer that fails. -/
structure Stops {α : Type} (d : Device) (p : Access α) : Prop where
  run : ∀ {σ : Type} (board : Program.Board σ) (s : σ), (p.run.run board s).StopsAtFailure d

namespace Stops

variable {α β : Type} {d : Device}

/-- Without a transfer there is no failure. -/
theorem of_no_transfers {p : Access α}
    (h : ∀ (σ : Type) (board : Program.Board σ) (s : σ), (p.run.run board s).transfers = [] ∧
      ∀ err, (p.run.run board s).outcome = .ok (.error err) → err.isBus = false) : Stops d p := by
  constructor
  intro σ board s
  obtain ⟨none, other⟩ := h σ board s
  refine .through ?_ other
  rw [none]
  exact fun e he => absurd he List.not_mem_nil

theorem returns (x : α) : Stops d (pure x : Access α) :=
  of_no_transfers fun _ _ _ => ⟨rfl, fun _ h => by cases h⟩

theorem throws {e : ChipError} (h : e.isBus = false) : Stops d (throw e : Access α) :=
  of_no_transfers fun _ _ _ => ⟨rfl, fun _ same => by cases same; exact h⟩

theorem checked (c : Checked α) : Stops d (liftM (liftM c : Program α) : Access α) := by
  cases c with
  | ok x => exact returns x
  | error cause => exact of_no_transfers fun _ _ _ => ⟨rfl, fun _ h => by cases h⟩

theorem run_lift {σ : Type} (board : Program.Board σ) (p : Program α) (s : σ) :
    (liftM p : Access α).run.run board s =
      ⟨(p.run board s).outcome.map .ok, (p.run board s).events, (p.run board s).board⟩ := by
  change (Except.ok <$> p).run board s = _
  rw [Program.run_map]

theorem offBus {p : Program α} (h : p.Only Request.OffBus) : Stops d (liftM p : Access α) := by
  apply of_no_transfers
  intro σ board s
  obtain ⟨x, outcome, off⟩ := h.ends board s
  rw [run_lift, outcome]
  constructor
  · rw [Program.Run.transfers, List.filter_eq_nil_iff]
    rintro ⟨request, answer⟩ he
    cases request with
    | busRead | busWrite => exact absurd (off _ he) id
    | _ => exact Bool.false_ne_true
  · intro err same
    cases same

theorem log (level : Log.Level) (text : String) :
    Stops d (liftM (Program.log level text) : Access Unit) :=
  offBus (.request trivial)

/-- What follows an access runs only if nothing has failed yet. -/
theorem andThen {p : Access α} {f : α → Access β} (hp : Stops d p) (hf : ∀ x, Stops d (f x)) :
    Stops d (p >>= f) := by
  constructor
  intro σ board s
  have first := hp.run board s
  rw [ExceptT.run_bind, Program.run_bind]
  generalize p.run.run board s = r at first
  obtain ⟨outcome, events, s'⟩ := r
  match outcome with
  | .error cause =>
    cases first with
    | through passed => exact .through passed fun _ same => by cases same
    | failed _ _ _ _ _ _ _ same => cases same
  | .ok (.error e) =>
    rw [Program.Run.andThen_ok]
    dsimp only [Program.run_pure]
    rw [List.append_nil]
    exact first.handOn
  | .ok (.ok x) =>
    rw [Program.Run.andThen_ok]
    exact ((hf x).run board s').after first.passed_of_ok

theorem result {p : Access α} (hp : Stops d p) (g : α → β) : Stops d (g <$> p) := by
  rw [map_eq_pure_bind]
  exact hp.andThen fun x => returns (g x)

theorem each {xs : List α} {f : α → Access Unit} (h : ∀ x ∈ xs, Stops d (f x)) :
    Stops d (xs.forM f) := by
  induction xs with
  | nil => exact returns ()
  | cons x xs ih =>
    obtain ⟨hx, hxs⟩ := List.forall_mem_cons.mp h
    exact hx.andThen fun _ => ih hxs

theorem collect {xs : List α} {f : α → Access β} (h : ∀ x ∈ xs, Stops d (f x)) :
    Stops d (xs.mapM f) := by
  induction xs with
  | nil => exact returns []
  | cons x xs ih =>
    obtain ⟨hx, hxs⟩ := List.forall_mem_cons.mp h
    rw [List.mapM_cons]
    exact hx.andThen fun y => (ih hxs).andThen fun ys => returns (y :: ys)

/-! ## Transfers -/

variable (d)

/-- A single transfer, after which there is nothing left but to return a value, or to log the
failure and to name it. -/
theorem transfer {request : Request} {next : request.Answer → Access α}
    (own : ∀ answer, Event.With d ⟨request, answer⟩)
    (rest : ∀ answer,
      (Event.failed ⟨request, answer⟩ = false ∧ ∃ x, next answer = pure x) ∨
      ∃ err level text, Event.error? ⟨request, answer⟩ = some err ∧
        next answer = liftM (Program.log level text) >>= fun _ => throw err) :
    Stops d (liftM (Program.ask request .done) >>= next) := by
  constructor
  intro σ board s
  have run : (liftM (Program.ask request .done) >>= next).run.run board s =
      Program.Run.andThen ⟨.ok (board s request).1, [⟨request, (board s request).1⟩],
        (board s request).2⟩ fun answer s => (next answer).run.run board s := by
    rfl
  rw [run, Program.Run.andThen_ok]
  rcases rest (board s request).1 with ⟨passed, x, hx⟩ | ⟨err, level, text, names, herr⟩
  · rw [hx]
    refine .through ?_ fun _ same => by cases same
    intro e he
    obtain rfl := List.mem_singleton.mp (List.mem_of_mem_filter he)
    exact ⟨own _, passed⟩
  · rw [herr]
    refine .failed [] _ err ?_ (fun e he => absurd he List.not_mem_nil) (own _) names rfl
    exact List.filter_cons_of_pos (own _).isTransfer

/-- A failed transfer is logged, and nothing else follows it. -/
theorem read (start : UInt8) (count : Nat) : Stops d (d.read start count) := by
  have own (answer) : Event.With d ⟨.busRead d.address start count, answer⟩ := rfl
  refine transfer d own fun answer => ?_
  cases answer with
  | ok bytes => exact .inl ⟨rfl, bytes, rfl⟩
  | error code => exact .inr ⟨_, _, _, rfl, rfl⟩

theorem write (start : UInt8) (bytes : List UInt8) : Stops d (d.write start bytes) := by
  have own (answer) : Event.With d ⟨.busWrite d.address start bytes, answer⟩ := rfl
  refine transfer d own fun answer => ?_
  cases answer with
  | ok done => exact .inl ⟨rfl, (), rfl⟩
  | error code => exact .inr ⟨_, _, _, rfl, rfl⟩

theorem readByte (register : UInt8) : Stops d (d.readByte register) :=
  (read d register 1).andThen fun bytes => returns bytes[0]

theorem writeByte (register byte : UInt8) : Stops d (d.writeByte register byte) :=
  write d register [byte]

/-- An access that is put together from transfers stops if they do. -/
theorem closed : Closed d (fun _ => True) fun p => Stops d p where
  returns := returns
  throws := throws
  andThen := andThen
  checked {_ β c f} rest := by
    cases c with
    | ok x => exact rest x rfl
    | error cause =>
      have faulted : Stops d (liftM (liftM (.error cause : Checked β) : Program β) : Access β) :=
        checked _
      exact faulted
  offBus := offBus
  readByte := readByte d
  writeByte _ := writeByte d _

theorem update (f : Field) (bits : UInt8) : Stops d (d.update f bits) :=
  (closed d).update trivial bits

end Stops

/-- An operation on the registers hands its error on, a dump excepted: there, a register that does
not answer is a gap. -/
theorem Operation.stops {op : Operation} (h : ∀ title last, op ≠ .dump title last) (d : Device) :
    Stops d (op.perform d) := by
  cases op with
  | registerCount => exact .returns _
  | address => exact .returns _
  | read start count =>
    exact (Stops.read d start count).result fun bytes => Reply.bytes bytes.toList
  | write start bytes => exact (Stops.write d start bytes).andThen fun _ => .returns Reply.nothing
  | readByte register => exact (Stops.readByte d register).result Reply.byte
  | writeByte register byte =>
    exact (Stops.writeByte d register byte).andThen fun _ => .returns Reply.nothing
  | update f bits => exact (Stops.update d f bits).result Reply.wrote
  | set f => exact (Stops.update d f f.mask).result Reply.wrote
  | clear f => exact (Stops.update d f 0).result Reply.wrote
  | assign f on => exact (Stops.update d f (f.fill on)).result Reply.wrote
  | reportStatus => exact (Stops.closed d).reportStatus.andThen fun _ => .returns Reply.nothing
  | dump title last => exact absurd rfl (h title last)

end Chip

/-! ## Rails and the chip's settings -/

namespace Rail

theorem stops_setVoltage (d : Device) (r : Rail) (mv : Int32) : Stops d (r.setVoltage d mv) := by
  apply (Stops.checked _).andThen
  intro selector
  cases selector with
  | none => exact .throws rfl
  | some selector => exact .update d _ _

theorem stops_setForced (d : Device) (r : Rail) (forced : Bool) :
    Stops d (r.setForced d forced) := by
  unfold setForced
  cases r.modeField? with
  | none => exact .throws rfl
  | some f => exact .update d f _

theorem stops_groups (d : Device) (r : Rail) (s : Settings) :
    ∀ g ∈ groups d r s, Stops d g.action := by
  unfold groups
  simp only [List.forall_mem_cons, List.not_mem_nil, false_imp_iff, implies_true, and_true]
  refine ⟨?_, ?_, ?_⟩
  · unfold applyVoltage
    cases s.voltage with
    | none => exact .returns _
    | some mv => exact (stops_setVoltage d r mv).result Outcome.ofWritten
  · unfold applyMode
    cases s.mode with
    | none => exact .returns _
    | some mode =>
      dsimp only
      split
      · exact (stops_setForced d r _).result Outcome.ofWritten
      · exact .returns _
  · unfold applyEnable
    cases s.enable with
    | none => exact .returns _
    | some on => exact (Stops.update d _ _).result Outcome.ofWritten

end Rail

namespace Pmic

theorem stops_initChip (d : Device) : Stops d (initChip d) := by
  apply (Stops.readByte d Register.chipId).andThen
  intro id
  apply (Stops.log _ _).andThen
  intro _
  have setup : Stops d (interruptSetup.forM fun setup => d.writeByte setup.1 setup.2) :=
    .each fun setup _ => .writeByte d setup.1 setup.2
  exact setup.andThen fun _ => .returns id

theorem stops_applySlots (d : Device) (f : Field) (what : String) (slots : Option (List Slot)) :
    Stops d (applySlots d f what slots) := by
  unfold applySlots
  cases slots with
  | none => exact .throws rfl
  | some slots =>
    dsimp only
    split
    · exact .throws rfl
    · exact (Stops.update d f _).result Outcome.ofWritten

theorem stops_groups (d : Device) (s : Settings) : ∀ g ∈ groups d s, Stops d g.action := by
  unfold groups
  simp only [List.forall_mem_cons, List.not_mem_nil, false_imp_iff, implies_true, and_true]
  refine ⟨stops_applySlots .., ?_, ?_, stops_applySlots .., ?_⟩
  · unfold applyOffVoltage
    cases s.offVoltage with
    | none => exact .returns _
    | some v =>
      dsimp only
      split
      · exact .throws rfl
      · exact (Stops.update d _ _).result Outcome.ofWritten
  · unfold applyAdcControl
    cases s.adcControl with
    | none => exact .returns _
    | some v =>
      dsimp only
      split
      · exact .throws rfl
      · exact (Stops.update d _ _).result Outcome.ofWritten
  · exact (stops_initChip d).andThen fun _ => .returns Outcome.written

/-- The operation counts its errors in a tally. -/
def Operation.tallies : Operation → Bool
  | probe _ => true
  | applyRail .. => true
  | applyRails _ => true
  | _ => false

theorem Operation.stops {op : Operation} (h : op.tallies = false) (d : Device) :
    Stops d (op.perform d) := by
  cases op with
  | probe | applyRail | applyRails => cases h
  | initChip => exact (stops_initChip d).result fun id => Reply.number id.toNat
  | setVoltage r mv => exact (r.stops_setVoltage d mv).result Reply.wrote
  | voltage r =>
    have voltage : Stops d (r.voltage d) :=
      (Stops.readByte d _).andThen fun byte => Stops.checked _
    exact voltage.result fun mv => Reply.number mv.toNat
  | setEnabled r on => exact (Stops.update d _ _).result Reply.wrote
  | enabled r =>
    have enabled : Stops d (r.enabled d) :=
      (Stops.readByte d _).result fun byte => byte &&& r.enableField.mask != 0
    exact enabled.result Reply.enabled
  | setForced r forced => exact (r.stops_setForced d forced).result Reply.wrote

end Pmic

/-! ## The charger -/

namespace Charger

theorem stops_writePair (high low : UInt8) (pair : BytePair) :
    Stops device (writePair high low pair) :=
  (Stops.writeByte device high pair.high).andThen fun _ => Stops.writeByte device low pair.low

theorem stops_earlyGroups (s : Settings) : ∀ g ∈ earlyGroups s, Stops device g.action :=
  List.forall_mem_append.mpr ⟨closed_groups (Stops.closed device) (fun _ _ => trivial) s,
    List.forall_mem_singleton.mpr (closed_curve (Stops.closed device) (fun _ _ => trivial) s)⟩

theorem stops_lateGroups (s : Settings) (changed : Bool) :
    ∀ g ∈ lateGroups s changed, Stops device g.action := by
  unfold lateGroups gaugeGroups
  simp only [List.cons_append, List.nil_append, List.forall_mem_cons, List.not_mem_nil,
    false_imp_iff, implies_true, and_true]
  have closed := Stops.closed device
  have word (w : GaugeWord) : Stops device (w.apply s changed) :=
    closed_word closed w (fun _ _ _ _ => stops_writePair _ _ _) (fun _ _ => stops_writePair _ _ _)
      changed
  exact ⟨word .resistance, word .capacity, closed.result closed.reportStatus fun _ =>
    Outcome.unchanged⟩

theorem stops_measure (high : UInt8) : Stops device (measure high) := by
  apply (Stops.readByte device high).andThen
  intro upper
  exact (Stops.readByte device (high + 1)).andThen fun lower => .returns _

theorem stops_batteryMicrovolts : Stops device Charger.batteryMicrovolts := by
  refine Stops.andThen (.collect fun _ _ => ?_) fun samples => .returns _
  have interval : (Program.wait sampleInterval).Only Request.OffBus := .request trivial
  apply (Stops.offBus interval).andThen
  intro _
  exact (stops_measure _).result Measurement.batteryMillivolts

theorem stops_percent : Stops device Charger.percent :=
  (Stops.readByte device _).result (· &&& Field.percent.mask)

theorem stops_setVbusLimit (limit : VbusLimit) : Stops device (setVbusLimit limit) :=
  .update device _ _

theorem stops_powerSource (c : Charger) : Stops device (powerSource c) := by
  have host : (hostPresent c).Only Request.OffBus := by
    unfold hostPresent
    cases c.detection with
    | absent | assumed => trivial
    | probed => exact .request trivial
  apply (Stops.readByte device _).andThen
  intro status
  split
  · exact .returns _
  · split
    · apply (Stops.offBus host).andThen
      intro present
      split
      · exact (stops_setVbusLimit _).andThen fun _ => .returns _
      · exact (stops_setVbusLimit _).andThen fun _ => .returns _
    · exact (stops_setVbusLimit _).andThen fun _ => .returns _

theorem stops_reading : Stops device Charger.chargeCurrent :=
  (Stops.readByte device _).result Current.decode

theorem stops_inputLimit (source : PowerSource) : Stops device (inputLimit source) := by
  cases source with
  | none => exact .throws rfl
  | adapter => exact (Stops.readByte device _).result Current.decode
  | usb => exact (Stops.readByte device _).result fun byte => (VbusLimit.ofCode byte).microamps

theorem stops_setInputLimit (source : PowerSource) (ua : Nat) :
    Stops device (setInputLimit source ua) := by
  cases source with
  | none => exact .throws rfl
  | adapter => exact (Stops.update device _ _).andThen fun _ => .returns ()
  | usb => exact (stops_setVbusLimit _).andThen fun _ => .returns ()

theorem stops_report (c : Charger) : Stops device (Report.collect c) := by
  apply (stops_powerSource c).andThen
  intro source
  apply stops_batteryMicrovolts.andThen
  intro battery
  apply stops_percent.andThen
  intro percent
  apply stops_reading.andThen
  intro charge
  apply (stops_inputLimit .adapter).andThen
  intro adapter
  exact (stops_inputLimit .usb).andThen fun vbus => .returns _

theorem Operation.stops {op : Operation} (h : op ≠ .probe) (c : Charger) :
    Stops device (op.perform c) := by
  cases op with
  | probe => exact absurd rfl h
  | batteryMicrovolts => exact stops_batteryMicrovolts.result Reply.number
  | percent => exact stops_percent.result fun byte => Reply.number byte.toNat
  | openMillivolts =>
    exact ((stops_measure _).result Measurement.openMillivolts).result Reply.number
  | chargeMilliamps =>
    exact ((stops_measure _).result Measurement.chargeMilliamps).result Reply.number
  | dischargeMilliamps =>
    exact ((stops_measure _).result Measurement.dischargeMilliamps).result Reply.number
  | powerSource => exact (stops_powerSource c).result Reply.source
  | chargeCurrent => exact stops_reading.result Reply.number
  | setChargeCurrent ua =>
    have set : Stops device (Charger.setChargeCurrent ua.toNat) :=
      (Stops.update device _ _).andThen fun _ => .returns ()
    exact set.andThen fun _ => .returns Reply.nothing
  | inputLimit source => exact (stops_inputLimit source).result Reply.number
  | setInputLimit source ua =>
    exact (stops_setInputLimit source ua.toNat).andThen fun _ => .returns Reply.nothing
  | report =>
    apply (stops_report c).andThen
    intro r
    have log : r.log.Only Request.OffBus := .forM fun _ _ => .request trivial
    exact (Stops.offBus log).andThen fun _ => .returns (Reply.report r)

end Charger

/-! ## Everything that hands its error on -/

/-- An access whose error goes to the caller: every operation but those that count errors or show
them as gaps, and each group of a pass by itself. -/
inductive HandsOn : Device → {α : Type} → Access α → Prop
  | chip (d : Device) (op : Chip.Operation) (no_dump : ∀ title last, op ≠ .dump title last) :
      HandsOn d (op.perform d)
  | pmic (d : Device) (op : Pmic.Operation) (no_tally : op.tallies = false) :
      HandsOn d (op.perform d)
  | charger (c : Charger) (op : Charger.Operation) (no_probe : op ≠ .probe) :
      HandsOn Charger.device (op.perform c)
  | report (c : Charger) : HandsOn Charger.device (Charger.Report.collect c)
  | railGroup (d : Device) (r : Rail) (s : Rail.Settings) (g : Group)
      (member : g ∈ r.groups d s) : HandsOn d g.action
  | pmicGroup (d : Device) (s : Pmic.Settings) (g : Group) (member : g ∈ Pmic.groups d s) :
      HandsOn d g.action
  | chargerGroup (s : Charger.Settings) (changed : Bool) (g : Group)
      (member : g ∈ Charger.earlyGroups s ++ Charger.lateGroups s changed) :
      HandsOn Charger.device g.action

/-- On any board, an access that hands its error on stops at the first transfer that fails and
names it, and it never names a transfer that did not fail. -/
theorem HandsOn.stops_at_failure {α σ : Type} {d : Device} {p : Access α} (h : HandsOn d p)
    (board : Program.Board σ) (s : σ) : (p.run.run board s).StopsAtFailure d := by
  have stops : Stops d p := by
    cases h with
    | chip _ op no_dump => exact op.stops no_dump d
    | pmic _ op no_tally => exact op.stops no_tally d
    | charger c op no_probe => exact op.stops no_probe c
    | report c => exact Charger.stops_report c
    | railGroup _ r settings g member => exact r.stops_groups d settings g member
    | pmicGroup _ settings g member => exact Pmic.stops_groups d settings g member
    | chargerGroup settings changed g member =>
      rcases List.mem_append.mp member with early | late
      · exact Charger.stops_earlyGroups settings g early
      · exact Charger.stops_lateGroups settings changed g late
  exact stops.run board s

/-- The eighth transfer of a report is the first half of the third battery sample. It fails, and
neither the rest of the samples nor the limits are read. -/
theorem report_stops_in_third_sample :
    let report := Charger.Report.collect (.ofTable .empty)
    let m : Bench.MemoryChip :=
      ⟨.zero, fun n _ _ => if 7 ≤ n then some (-110) else none, fun _ => true⟩
    HandsOn Charger.device report ∧
    (m.run report).transfers.length = 8 ∧
    (m.run report).outcome = .ok (.error (.bus 0x34 0x78 .read (-110))) ∧
    (m.run report).StopsAtFailure Charger.device := by
  intro report m
  have handsOn : HandsOn Charger.device report := .report _
  exact ⟨handsOn, by decide +kernel, by decide +kernel,
    handsOn.stops_at_failure Bench.MemoryChip.board m⟩

end Bringup
