import Bringup.Proofs.RailSteps
import Bringup.Proofs.Triple

/-! What a group has done on the bus, as far as its result tells. A group counted as skipped or
incomplete made no transfer, one counted as unchanged wrote nothing, and one counted as written
wrote, with all of its transfers going through. -/
namespace Bringup

open Bench (MemoryChip)

theorem Event.failed_of_not_transfer {e : Event} (h : e.isTransfer = false) : e.failed = false := by
  obtain ⟨request, answer⟩ := e
  cases request with
  | busRead => cases h
  | busWrite => cases h
  | _ => rfl

namespace Chip

/-! ## Traces -/

/-- Not a single transfer. -/
def Silent (events : List Event) : Prop := ∀ e ∈ events, e.isTransfer = false

/-- No transfer failed, and `wrote` says whether there was a write among them. -/
structure Smooth (wrote : Bool) (events : List Event) : Prop where
  unfailed : ∀ e ∈ events, e.failed = false
  writes : events.filterMap Event.write? = [] ↔ wrote = false

/-- Some transfer failed. -/
def Broken (events : List Event) : Prop := ∃ e ∈ events, e.failed = true

theorem silent_nil : Silent [] := fun _ he => absurd he List.not_mem_nil

theorem Silent.append {xs ys : List Event} (hx : Silent xs) (hy : Silent ys) :
    Silent (xs ++ ys) :=
  fun e he => (List.mem_append.mp he).elim (hx e) (hy e)

theorem Silent.smooth {events : List Event} (h : Silent events) : Smooth false events where
  unfailed e he := e.failed_of_not_transfer (h e he)
  writes := iff_of_true
    (List.filterMap_eq_nil_iff.mpr fun e he => e.write?_of_not_transfer (h e he)) rfl

theorem Smooth.append {before after : Bool} {xs ys : List Event} (hx : Smooth before xs)
    (hy : Smooth after ys) : Smooth (before || after) (xs ++ ys) where
  unfailed e he := (List.mem_append.mp he).elim (hx.unfailed e) (hy.unfailed e)
  writes := by
    rw [List.filterMap_append, List.append_eq_nil_iff, hx.writes, hy.writes, Bool.or_eq_false_iff]

theorem Broken.after {ys : List Event} (xs : List Event) (h : Broken ys) : Broken (xs ++ ys) := by
  obtain ⟨e, he, failed⟩ := h
  exact ⟨e, List.mem_append_right _ he, failed⟩

/-! ## Accesses that tell whether they wrote -/

/-- What the trace is like after an access: smooth where it came to a value, and broken where it
came to an error, which then is one of the bus. -/
def told {α : Type} (after : α → Bool) : Except ChipError α → Assertion MemoryChip :=
  .ofResult (fun x _ past => Smooth (after x) past) fun e _ past => e.isBus = true ∧ Broken past

/-- From a smooth trace with or without a write in it, the access leads to one whose writes its
value tells, unless the bus fails. -/
def Tells {α : Type} (before : Bool) (p : Access α) (after : α → Bool) : Prop :=
  Program.Triple MemoryChip.board (fun _ past => Smooth before past) p.run (told after)

namespace Tells

variable {α β : Type} {before : Bool}

theorem pure (x : α) : Tells before (Pure.pure x) fun _ => before :=
  Program.Triple.pure fun _ _ h => h

theorem andThen {p : Access α} {f : α → Access β} {mid : α → Bool} {after : β → Bool}
    (first : Tells before p mid) (rest : ∀ x, Tells (mid x) (f x) after) :
    Tells before (p >>= f) after :=
  Program.Triple.andThen first rest

/-- It is enough to know what the access adds to the trace. -/
theorem of_run {p : Access α} {wrote : α → Bool}
    (h : ∀ m, ∃ result, (m.run p).outcome = .ok result ∧ told wrote result m (m.run p).events) :
    Tells before p fun x => before || wrote x := by
  intro m past smooth
  obtain ⟨result, hrun, own⟩ := h m
  refine ⟨result, hrun, ?_⟩
  cases result with
  | ok x => exact smooth.append own
  | error e => exact ⟨own.1, own.2.after past⟩

theorem quiet {p : Program α} (h : ∀ m, ∃ x events,
    p.run MemoryChip.board m = ⟨.ok x, events, m⟩ ∧ Silent events) :
    Tells before (liftM p) fun _ => before := by
  have own : Tells before (liftM p) fun _ => before || false := of_run fun m => by
    obtain ⟨x, events, hrun, silent⟩ := h m
    rw [MemoryChip.run_liftM, hrun]
    exact ⟨.ok x, rfl, silent.smooth⟩
  simpa using own

theorem log (level : Log.Level) (text : String) :
    Tells before (liftM (Program.log level text)) fun _ => before :=
  quiet fun m => ⟨(), _, rfl, fun e he => by
    obtain rfl := List.mem_singleton.mp he
    rfl⟩

theorem logs (level : Log.Level) (lines : List String) :
    Tells before (liftM (lines.forM (Program.log level))) fun _ => before :=
  quiet fun m => by
    induction lines with
    | nil => exact ⟨(), [], rfl, silent_nil⟩
    | cons line lines ih =>
      obtain ⟨x, events, hrun, silent⟩ := ih
      refine ⟨x, ⟨.log ⟨level, line⟩, ()⟩ :: events, ?_, List.forall_mem_cons.mpr ⟨rfl, silent⟩⟩
      have logged : (Program.log level line).run MemoryChip.board m =
          ⟨.ok (), [⟨.log ⟨level, line⟩, ()⟩], m⟩ := rfl
      change (Program.log level line >>= fun _ => lines.forM _).run MemoryChip.board m = _
      rw [Program.run_bind, logged, Program.Run.andThen_ok, hrun]
      rfl

/-- Arithmetic that comes to something asks nothing of the bus. -/
theorem checked {c : Checked α} {x : α} (h : c = .ok x) :
    Tells before (liftM (liftM c : Program α)) fun _ => before := by
  subst h
  exact quiet fun m => ⟨x, [], rfl, silent_nil⟩

theorem readByte (d : Device) (r : UInt8) : Tells before (d.readByte r) fun _ => before := by
  have own : Tells before (d.readByte r) fun _ => before || false := of_run fun m => by
    cases h : m.plan 0 r .read with
    | none =>
      rw [m.run_readByte_next d r h]
      exact ⟨_, rfl, by simp [Event.failed], by simp [Event.write?]⟩
    | some code =>
      obtain ⟨line, hl⟩ := m.run_readByte_next_fails d r h
      rw [hl]
      exact ⟨_, rfl, rfl, _, List.mem_cons_self, rfl⟩
  simpa using own

theorem writeByte (d : Device) (r byte : UInt8) :
    Tells before (d.writeByte r byte) fun _ => true := by
  have own : Tells before (d.writeByte r byte) fun _ => before || true := of_run fun m => by
    cases h : m.plan 0 r .write with
    | none =>
      rw [Device.writeByte, m.run_write d r [byte] h]
      exact ⟨.ok (), rfl, by simp [Event.failed], by simp [Event.write?]⟩
    | some code =>
      obtain ⟨line, hl⟩ := m.run_write_fails d r [byte] h
      rw [Device.writeByte, hl]
      exact ⟨_, rfl, rfl, _, List.mem_cons_self, rfl⟩
  simpa using own

theorem update (d : Device) (v : Revision) :
    Tells before (d.update v.field v.bits) fun wrote => before || wrote :=
  of_run fun m => by
    have run := updateRun d v m
    generalize m.run (d.update v.field v.bits) = r at run ⊢
    cases run with
    | unread code line => exact ⟨_, rfl, rfl, _, List.mem_cons_self, rfl⟩
    | unchanged holds => exact ⟨_, rfl, by simp [Event.failed], by simp [Event.write?]⟩
    | unwritten holds code line =>
      exact ⟨_, rfl, rfl, _, List.mem_cons_of_mem _ List.mem_cons_self, rfl⟩
    | written holds => exact ⟨_, rfl, by simp [Event.failed], by simp [Event.write?]⟩

/-- Writing at least once is a write. -/
theorem writeEach (d : Device) (setups : List (UInt8 × UInt8)) :
    Tells before (setups.forM fun setup => d.writeByte setup.1 setup.2)
      fun _ => before || !setups.isEmpty := by
  induction setups generalizing before with
  | nil =>
    have same : Tells before (Pure.pure () : Access Unit) fun _ => before := .pure ()
    simpa using same
  | cons setup setups ih =>
    have rest : Tells true (setups.forM fun setup => d.writeByte setup.1 setup.2) fun _ => true :=
      ih
    simpa using (writeByte d setup.1 setup.2).andThen fun _ => rest

end Tells

/-! ## Results and what they stand for -/

/-- The counters of a tally. -/
inductive Counter where
  | written
  | unchanged
  | skipped
  | incomplete
  | failed
  deriving DecidableEq, Repr

namespace Counter

/-- The counter that a result goes to. -/
def of : Except ChipError Outcome → Counter
  | .ok .written => written
  | .ok .unchanged => unchanged
  | .ok .skipped => skipped
  | .error (.incomplete _) => incomplete
  | .error _ => failed

/-- What a group has to have done to be counted there. A group fails with a transfer, or because
of a value that it turns down before the first one. -/
def Fits : Counter → List Event → Prop
  | written, events => Smooth true events
  | unchanged, events => Smooth false events
  | skipped, events => Silent events
  | incomplete, events => Silent events
  | failed, events => Broken events ∨ Silent events

theorem of_bus {e : ChipError} (h : e.isBus = true) : of (.error e) = failed := by
  cases e with
  | bus => rfl
  | incomplete => cases h
  | invalidInput => cases h

/-- An error before the first transfer may be any. -/
theorem fits_of_silent (e : ChipError) {events : List Event} (h : Silent events) :
    (of (.error e)).Fits events := by
  cases e with
  | incomplete => exact h
  | bus => exact .inr h
  | invalidInput => exact .inr h

theorem fits_ofWritten (wrote : Bool) {events : List Event} (h : Smooth wrote events) :
    (of (.ok (.ofWritten wrote))).Fits events := by
  cases wrote <;> exact h

end Counter

/-- The result speaks for the trace. -/
def fitting (result : Except ChipError Outcome) : Assertion MemoryChip :=
  fun _ past => (Counter.of result).Fits past

/-- From a smooth trace on, the group comes to a result that fits. -/
def Settles (before : Bool) (p : Access Outcome) : Prop :=
  Program.Triple MemoryChip.board (fun _ past => Smooth before past) p.run fitting

/-- A group that has not made any transfer comes to a result that fits. -/
def Fair (p : Access Outcome) : Prop :=
  Program.Triple MemoryChip.board (fun _ past => Silent past) p.run fitting

theorem Settles.ofWritten (wrote : Bool) : Settles wrote (pure (.ofWritten wrote)) :=
  Program.Triple.pure fun _ _ h => Counter.fits_ofWritten wrote h

theorem Tells.settles {α : Type} {before : Bool} {p : Access α} {mid : α → Bool}
    {f : α → Access Outcome} (first : Tells before p mid) (rest : ∀ x, Settles (mid x) (f x)) :
    Settles before (p >>= f) := by
  refine Program.Triple.andThen (first.conseq (fun _ _ h => h) fun result m past h => ?_) rest
  cases result with
  | ok x => exact h
  | error e =>
    change (Counter.of (.error e)).Fits past
    rw [Counter.of_bus h.1]
    exact .inl h.2

namespace Fair

theorem of_settles {p : Access Outcome} (h : Settles false p) : Fair p :=
  Program.Triple.conseq h (fun _ _ silent => silent.smooth) fun _ _ _ hpost => hpost

theorem skip : Fair (pure .skipped) := Program.Triple.pure fun _ _ h => h

theorem throw (e : ChipError) : Fair (throw e) :=
  Program.Triple.pure fun _ _ h => Counter.fits_of_silent e h

/-- Bits that do not fit are turned down before the first transfer. -/
theorem update (d : Device) (f : Field) (bits : UInt8) :
    Fair (Outcome.ofWritten <$> d.update f bits) := by
  by_cases fits : bits &&& ~~~f.mask = 0
  · rw [map_eq_pure_bind]
    have told : Tells false (d.update f bits) fun wrote => false || wrote :=
      .update d ⟨f, bits, fits⟩
    exact of_settles (told.settles fun wrote => by simpa using Settles.ofWritten wrote)
  · rw [Device.update, if_pos fits]
    exact throw .invalidInput

theorem patch (p : Patch) (d : Device) (r : UInt8) : Fair (p.apply d r) := by
  unfold Patch.apply
  split
  · exact skip
  · exact update d _ _

/-- The result and the trace of a fair group. -/
theorem run {p : Access Outcome} (h : Fair p) (m : MemoryChip) :
    ∃ result, (m.run p).outcome = .ok result ∧ (Counter.of result).Fits (m.run p).events :=
  h m [] silent_nil

end Fair

end Chip

open Chip

namespace Charger

/-! ## The groups of the charger -/

theorem fair_flag (f : Chip.Field) (setting : Option Int32) : Fair (applyFlag f setting) := by
  cases setting with
  | none => exact .skip
  | some on => exact .update device f _

/-- A voltage without a code is only talked about. -/
theorem holdPatch_silent (p : Patch) (mv enable : Int32) :
    Program.Triple MemoryChip.board (fun _ past => Silent past)
      (liftM (holdPatch p mv enable) : Access Patch).run
      (.ofResult (fun _ _ past => Silent past) fun e _ past =>
        (Counter.of (.error e)).Fits past) := by
  have logged (level : Log.Level) (text : String) : Program.Triple MemoryChip.board
      (fun _ past => Silent past) (Program.log level text) fun _ _ past => Silent past :=
    .ask fun _ past h => h.append fun e he => by
      obtain rfl := List.mem_singleton.mp he
      rfl
  refine .map _ ?_
  unfold holdPatch
  split
  · cases holdBits mv.toInt with
    | some bits => exact .pure fun _ _ h => h
    | none => exact (logged _ _).bind fun _ => .pure fun _ _ h => h
  · exact .pure fun _ _ h => h

theorem fair_vbus (s : Settings) : Fair (applyVbus s) := by
  unfold applyVbus
  cases s.vbus? with
  | none => exact .throw _
  | some v =>
    exact Program.Triple.andThen (holdPatch_silent .empty v.voltage v.voltageEnable) fun p =>
      Fair.patch _ device Register.vbus

theorem fair_adapterLimit (s : Settings) : Fair (applyAdapterLimit s) := by
  unfold applyAdapterLimit
  cases s.adapterLimit with
  | none => exact .skip
  | some ua => exact .update device _ _

/-- Two updates count as one. -/
theorem fair_chargeCurrent (s : Settings) : Fair (applyChargeCurrent s) := by
  unfold applyChargeCurrent
  cases s.chargeCurrent with
  | none => exact .skip
  | some ua =>
    refine .of_settles ?_
    have switching : Tells false (device.assign Field.chargeEnable (ua != 0)) fun wrote =>
        false || wrote := .update device (flagRevision Field.chargeEnable ua)
    refine switching.settles fun switched => ?_
    refine (Tells.readByte device Register.inputStatus).settles fun status => ?_
    have charging (target : Int) : Tells switched
        (device.update Field.chargeCurrent (Current.encode target)) fun wrote =>
          switched || wrote := .update device (currentRevision Register.charge1 target)
    exact (charging _).settles fun changed => .ofWritten (switched || changed)

theorem fair_warning (s : Settings) : Fair (applyWarning s) := by
  unfold applyWarning
  cases s.firstWarning with
  | none => exact .throw _
  | some first =>
    cases s.secondWarning with
    | none => exact .throw _
    | some second =>
      cases hw : warningByte first.toInt second.toInt with
      | none => simp only [hw]; exact .throw _
      | some byte => simp only [hw]; exact .update device _ byte

theorem fair_groups (s : Settings) : ∀ g ∈ groups s, Fair g.action := by
  simp only [groups, List.forall_mem_cons]
  exact ⟨.patch _ device _, .patch _ device _, fair_flag _ _, fair_flag _ _, fair_flag _ _,
    fair_flag _ _, fair_vbus s, fair_adapterLimit s, fair_chargeCurrent s, fair_warning s,
    fun _ h => absurd h List.not_mem_nil⟩

theorem differs_tells {before : Bool} (bytes : List UInt8) (start : UInt8) :
    Tells before (differs start bytes) fun _ => before := by
  induction bytes generalizing start with
  | nil => exact .pure false
  | cons byte rest ih =>
    refine (Tells.readByte device start).andThen fun found => ?_
    split
    · exact .pure true
    · exact ih _

theorem writeAll_tells {before : Bool} (bytes : List UInt8) (start : UInt8) :
    Tells before (writeAll start bytes) fun _ => before || !bytes.isEmpty := by
  induction bytes generalizing start before with
  | nil =>
    have same : Tells before (pure () : Access Unit) fun _ => before := .pure ()
    simpa [writeAll] using same
  | cons byte rest ih =>
    have rest : Tells true (writeAll (start + 1) rest) fun _ => true := ih (start + 1)
    simpa [writeAll] using (Tells.writeByte device start byte).andThen fun _ => rest

theorem writePair_tells {before : Bool} (high low : UInt8) (pair : BytePair) :
    Tells before (writePair high low pair) fun _ => true :=
  (Tells.writeByte device high pair.high).andThen fun _ => .writeByte device low pair.low

/-- A curve that differs has at least one byte. -/
theorem fair_curve (s : Settings) : Fair (applyCurve s) := by
  unfold applyCurve
  cases s.curve with
  | none => exact .skip
  | some curve =>
    refine .of_settles ?_
    cases hbytes : curve.bytes with
    | nil =>
      simp only [hbytes, differs]
      exact .ofWritten false
    | cons byte rest =>
      simp only [hbytes]
      refine (differs_tells _ _).settles fun different => ?_
      split
      · refine (writeAll_tells _ _).settles fun _ => ?_
        exact (Tells.log _ _).settles fun _ => .ofWritten true
      · exact .ofWritten false

theorem fair_word {s : Settings} (hs : s.Encodable) (w : GaugeWord) (changed : Bool) :
    Fair (w.apply s changed) := by
  cases configured : w.setting s with
  | none =>
    rw [w.apply_none configured]
    exact .skip
  | some value =>
    obtain ⟨code, hcode⟩ := w.encodable hs configured
    rw [w.apply_some configured]
    refine .of_settles ((Tells.readByte device _).settles fun high => ?_)
    split
    · refine (Tells.checked hcode).settles fun code => ?_
      exact (writePair_tells _ _ _).settles fun _ => .ofWritten true
    · cases w with
      | resistance => exact .ofWritten false
      | capacity =>
        rw [GaugeWord.orElse]
        split
        · refine (Tells.readByte device _).settles fun low => ?_
          split
          · exact (writePair_tells _ _ _).settles fun _ => .ofWritten true
          · exact .ofWritten false
        · exact .ofWritten false

theorem fair_gaugeGroups {s : Settings} (hs : s.Encodable) (changed : Bool) :
    ∀ g ∈ gaugeGroups s changed, Fair g.action := by
  simp only [gaugeGroups, List.forall_mem_cons]
  exact ⟨fair_word hs .resistance changed, fair_word hs .capacity changed,
    fun _ h => absurd h List.not_mem_nil⟩

theorem status_tells {before : Bool} (d : Device) :
    Tells before d.reportStatus fun _ => before :=
  (Tells.readByte d _).andThen fun _ => (Tells.readByte d _).andThen fun _ =>
    (Tells.logs _ _).andThen fun _ => .logs _ _

end Charger

namespace Rail

/-! ## The steps of a rail -/

theorem fair_applyVoltage (d : Device) (r : Rail) (s : Settings) : Fair (applyVoltage d r s) := by
  unfold applyVoltage
  cases s.voltage with
  | none => exact .skip
  | some mv =>
    by_cases h : r.range.Contains mv
    · simp only [setVoltage_inside h d]
      exact .update d _ _
    · simp only [setVoltage_outside h d]
      exact .throw _

theorem fair_applyMode (d : Device) (r : Rail) (s : Settings) : Fair (applyMode d r s) := by
  unfold applyMode setForced
  cases s.mode with
  | none => exact .skip
  | some mode =>
    cases r.modeField? with
    | none => exact .skip
    | some f => exact .update d f _

theorem fair_applyEnable (d : Device) (r : Rail) (s : Settings) : Fair (applyEnable d r s) := by
  unfold applyEnable
  cases s.enable with
  | none => exact .skip
  | some on => exact .update d _ _

theorem fair_groups (d : Device) (r : Rail) (s : Settings) : ∀ g ∈ groups d r s, Fair g.action := by
  simp only [groups, List.forall_mem_cons]
  exact ⟨fair_applyVoltage d r s, fair_applyMode d r s, fair_applyEnable d r s,
    fun _ h => absurd h List.not_mem_nil⟩

end Rail

namespace Pmic

/-! ## The groups of the chip's own settings -/

theorem fair_slots (d : Device) (f : Field) (what : String) (slots : Option (List Slot)) :
    Fair (applySlots d f what slots) := by
  unfold applySlots
  cases slots with
  | none => exact .throw _
  | some slots =>
    cases hpack : pack slots with
    | none => simp only [hpack]; exact .throw _
    | some byte => simp only [hpack]; exact .update d f byte

theorem fair_offVoltage (d : Device) (s : Settings) : Fair (applyOffVoltage d s) := by
  unfold applyOffVoltage
  cases s.offVoltage with
  | none => exact .skip
  | some v =>
    cases hpack : pack [⟨v, offVoltageField.mask, 0⟩] with
    | none => simp only [hpack]; exact .throw _
    | some bits => simp only [hpack]; exact .update d _ bits

theorem fair_adcControl (d : Device) (s : Settings) : Fair (applyAdcControl d s) := by
  unfold applyAdcControl
  cases s.adcControl with
  | none => exact .skip
  | some v =>
    cases hpack : pack [⟨v, 0xFF, 0⟩] with
    | none => simp only [hpack]; exact .throw _
    | some bits => simp only [hpack]; exact .update d _ _

/-- The interrupts are set up by writes alone. -/
theorem fair_initChip (d : Device) : Fair (do let _ ← initChip d; return .written) := by
  have setup : Tells false (initChip d) fun _ => true :=
    (Tells.readByte d _).andThen fun id => (Tells.log _ _).andThen fun _ =>
      (Tells.writeEach d interruptSetup).andThen fun _ => .pure id
  exact .of_settles (setup.settles fun _ => .ofWritten true)

theorem fair_groups (d : Device) (s : Settings) : ∀ g ∈ groups d s, Fair g.action := by
  simp only [groups, List.forall_mem_cons]
  exact ⟨fair_slots d _ _ _, fair_offVoltage d s, fair_adcControl d s, fair_slots d _ _ _,
    fair_initChip d, fun _ h => absurd h List.not_mem_nil⟩

end Pmic

end Bringup
