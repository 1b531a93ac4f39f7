import Bringup.Bench.World
import Bringup.Board.LateInit
import Bringup.Proofs.BootReport
import Bringup.Proofs.LinkStores
import Bringup.Proofs.WindowMemory

/-! What becomes of a request for recovery. The last step before booting takes the request away
before it tells the environment what to boot, so one way is left for a request to be lost: the
environment refuses the boot command. Nothing that happens on the bus of the charger has a part
in it. -/
namespace Bringup

open Program (Only)

/-! ## Programs that only report -/

/-- What it takes to read a charger and report on it. -/
def Request.reports : Request → Bool
  | .busRead .. => true
  | .busWrite .. => true
  | .wait _ => true
  | .detectHost _ => true
  | .log _ => true
  | _ => false

/-- Nothing is asked for that decides about the boot. -/
abbrev Program.Reports {α : Type} (p : Program α) : Prop := p.Only (·.reports = true)

namespace Chip.Device

theorem readByte_reports (d : Device) (r : UInt8) : (d.readByte r).run.Reports :=
  d.readByte_only (fun _ => rfl) rfl

theorem update_reports (d : Device) (f : Field) (bits : UInt8) :
    (d.update f bits).run.Reports := by
  refine d.update_only (fun _ => ?_) ?_ (fun _ => ?_) bits
  all_goals rfl

end Chip.Device

namespace Charger

theorem powerSource_reports (c : Charger) : (powerSource c).run.Reports := by
  have limited (limit : VbusLimit) (source : PowerSource) :
      (do let _ ← setVbusLimit limit; return source : Chip.Access PowerSource).run.Reports :=
    (device.update_reports _ _).andThen fun _ => trivial
  have asked : (hostPresent c).Reports := by
    unfold hostPresent
    cases c.detection with
    | absent | assumed => trivial
    | probed => exact .request rfl
  refine (device.readByte_reports _).andThen fun status => ?_
  split
  · trivial
  · split
    · refine (Only.lift asked).andThen fun present => ?_
      split
      · exact limited .half .usb
      · exact limited .full .adapter
    · exact limited .half .none

theorem collect_reports (c : Charger) : (Report.collect c).run.Reports := by
  rw [Report.collect_eq]
  refine (powerSource_reports c).andThen fun source => ?_
  refine Report.rest_only (fun _ => ?_) ?_ (fun _ => ?_) source
  all_goals rfl

end Charger

/-! ## What a late init does to the boot -/

/-- The events that decide about the boot. -/
def bootEvents (events : List Event) : List Event := events.filter fun e => !e.request.reports

theorem bootEvents_append (events more : List Event) :
    bootEvents (events ++ more) = bootEvents events ++ bootEvents more :=
  List.filter_append _ _

theorem mem_bootEvents {e : Event} {events : List Event} :
    e ∈ bootEvents events ↔ e ∈ events ∧ e.request.reports = false := by
  simp [bootEvents]

/-- Reports store nothing. -/
theorem storesOf_bootEvents (events : List Event) :
    storesOf (bootEvents events) = storesOf events := by
  unfold storesOf bootEvents
  rw [List.filterMap_filter]
  congr 1
  funext ⟨r, _⟩
  cases r <;> rfl

namespace Board

/-- The board revision is published. -/
def published (answer : Except String Unit) : Event := ⟨.setVariable "board_rev" "0", answer⟩

/-- The scratch word is read. -/
def looked (word : UInt32) : Event := ⟨.load .alive Recovery.scratchRead, word⟩

/-- The request is taken away. -/
def cleared : Event := ⟨.store .alive Recovery.scratchReset 0xFFFFFFFF, ()⟩

/-- The environment is told to boot for recovery. -/
def commanded (answer : Except String Unit) : Event :=
  ⟨.setVariable "bootcmd" Recovery.bootCommand, answer⟩

/-- How a late init can end, and everything that it has done to the boot by then. -/
inductive Settles : Except String LateInit → List Event → Prop
  | unpublished (message : String) : Settles (.error message) [published (.error message)]
  | lost (message : String) : Settles (.error message)
      [published (.ok ()), looked Recovery.signature, cleared, commanded (.error message)]
  | honoured (charger : Option Charger.Report) : Settles (.ok ⟨true, charger⟩)
      [published (.ok ()), looked Recovery.signature, cleared, commanded (.ok ())]
  | plain (word : UInt32) (other : word ≠ Recovery.signature)
      (charger : Option Charger.Report) : Settles (.ok ⟨false, charger⟩)
      [published (.ok ()), looked word]

section
variable {σ α : Type} {board : Program.Board σ} {done : List Event}

/-- What has been done to the boot so far. -/
def recorded (done : List Event) : Assertion σ := fun _ past => bootEvents past = done

theorem recorded_ask {r : Request} (h : r.reports = false) :
    Program.Triple board (recorded done) (.ask r .done)
      fun answer => recorded (done ++ [⟨r, answer⟩]) := by
  refine .ask fun s past hdone => ?_
  have kept : bootEvents [⟨r, (board s r).1⟩] = [⟨r, (board s r).1⟩] := by simp [bootEvents, h]
  calc bootEvents (past ++ [⟨r, (board s r).1⟩])
    _ = bootEvents past ++ bootEvents [⟨r, (board s r).1⟩] := bootEvents_append _ _
    _ = done ++ [⟨r, (board s r).1⟩] := by rw [kept, show bootEvents past = done from hdone]

/-- A report does nothing to the boot. -/
theorem recorded_reports {p : Program α} (h : p.Reports) :
    Program.Triple board (recorded done) p fun _ => recorded done := by
  intro s past hdone
  obtain ⟨x, hx, quiet⟩ := h.ends board s
  have silent : bootEvents (p.run board s).events = [] :=
    List.filter_eq_nil_iff.mpr fun e he => by simp [quiet e he]
  refine ⟨x, hx, ?_⟩
  calc bootEvents (past ++ (p.run board s).events)
    _ = bootEvents past ++ bootEvents (p.run board s).events := bootEvents_append _ _
    _ = done := by rw [silent, List.append_nil, show bootEvents past = done from hdone]

theorem recorded_log (level : Log.Level) (text : String) :
    Program.Triple board (recorded done) (Program.log level text) fun _ => recorded done :=
  recorded_reports (.request rfl)

/-- A request is taken away as soon as it is found. -/
theorem recorded_check : Program.Triple board (recorded done) Recovery.check fun found s past =>
    if found then recorded (done ++ [looked Recovery.signature, cleared]) s past
    else ∃ word ≠ Recovery.signature, recorded (done ++ [looked word]) s past := by
  refine Program.Triple.bind (recorded_ask rfl) fun word => (recorded_log _ _).bind fun _ => ?_
  by_cases request : word = Recovery.signature
  · rw [if_pos request, request]
    refine (recorded_log _ _).bind fun _ => Program.Triple.bind (recorded_ask rfl) fun _ =>
      .pure fun s past h => ?_
    rw [List.append_assoc] at h
    exact h
  · rw [if_neg request]
    exact .pure fun s past h => ⟨word, request, h⟩

/-- What is done about the charger comes to something, and does nothing to the boot. -/
theorem recorded_charger (c : Charger) :
    Program.Triple board (recorded done) (reportCharger c) fun _ => recorded done := by
  refine (recorded_reports (Charger.collect_reports c)).bind fun result => ?_
  cases result with
  | ok report =>
    have lines : report.log.Reports := .forM fun _ _ => .request rfl
    exact (recorded_reports lines).bind fun _ => .pure fun _ _ h => h
  | error e => exact (recorded_log _ _).bind fun _ => .pure fun _ _ h => h

/-- The end of a late init, once the environment has been told what to boot. -/
def finish (charger : Option Charger) (recovery : Bool) : ExceptT String Program LateInit :=
  match charger with
  | none => return ⟨recovery, none⟩
  | some c => return ⟨recovery, ← reportCharger c⟩

theorem recorded_finish (charger : Option Charger) (recovery : Bool) :
    Program.Triple board (recorded done) (finish charger recovery).run fun result s past =>
      ∃ report, result = .ok ⟨recovery, report⟩ ∧ recorded done s past := by
  cases charger with
  | none => exact .pure fun _ _ h => ⟨none, rfl, h⟩
  | some c =>
    exact Program.Triple.andThen (.map Except.ok (recorded_charger c)) fun report =>
      .pure fun _ _ h => ⟨report, rfl, h⟩

theorem lateInit_eq (charger : Option Charger) :
    lateInit charger = (do
      setVariable "board_rev" "0"
      let recovery ← Recovery.check
      if recovery then
        setVariable "bootcmd" Recovery.bootCommand
        finish charger true
      else
        finish charger false) := by
  unfold lateInit
  congr 1
  funext _
  congr 1
  funext recovery
  cases recovery <;> rfl

/-- The result, and what has been done to the boot, belong together. -/
def Settled (result : Except String LateInit) : Assertion σ := fun s past =>
  ∃ events, Settles result events ∧ recorded events s past

/-- An answer of the environment goes on record, and a refusal ends the late init. -/
theorem told {name value : String}
    (refused : ∀ message,
      Settles (.error message) (done ++ [⟨.setVariable name value, .error message⟩])) :
    Program.Triple board (recorded done) (setVariable name value).run <| .ofResult
      (fun _ => recorded (done ++ [⟨.setVariable name value, .ok ()⟩]))
      fun message => Settled (.error message) := by
  refine (recorded_ask rfl).conseq (fun _ _ h => h) fun answer s past h => ?_
  cases answer with
  | ok _ => exact h
  | error message => exact ⟨_, refused message, h⟩

theorem settled_request (charger : Option Charger) :
    Program.Triple board
      (recorded [published (.ok ()), looked Recovery.signature, cleared])
      (do setVariable "bootcmd" Recovery.bootCommand; finish charger true :
        ExceptT String Program LateInit).run Settled := by
  refine (told .lost).andThen fun _ => (recorded_finish charger true).conseq (fun _ _ h => h) ?_
  rintro _ s past ⟨report, rfl, h⟩
  exact ⟨_, .honoured report, h⟩

/-- Whatever the board answers, a late init comes to an end, and in one of these ways. -/
theorem settled_lateInit (charger : Option Charger) :
    Program.Triple board (recorded []) (lateInit charger).run Settled := by
  rw [lateInit_eq]
  refine (told .unpublished).andThen fun _ =>
    Program.Triple.andThen (.map Except.ok recorded_check) fun found => ?_
  cases found with
  | true => exact settled_request charger
  | false =>
    rintro s past ⟨word, other, h⟩
    refine (recorded_finish charger false).conseq (fun _ _ h => h) ?_ s past h
    rintro _ s past ⟨report, rfl, h⟩
    exact ⟨_, .plain word other report, h⟩

end

/-! ## Lost requests -/

/-- The store that takes a request away. -/
def resetStore : WordStore := (.alive, ⟨Recovery.scratchReset, 0xFFFFFFFF⟩)

/-- The words of the board and of the environment say the same about a request. -/
def Agrees (events : List Event) : Except String LateInit → Prop
  | .error message =>
      storesOf events = [resetStore] ∧ commanded (.error message) ∈ events ∨
      storesOf events = [] ∧ commanded (.error message) ∉ events
  | .ok late => ∃ word, looked word ∈ events ∧
      (late.recovery = true ↔ word = Recovery.signature) ∧
      (late.recovery = true ↔ commanded (.ok ()) ∈ events) ∧
      storesOf events = if late.recovery then [resetStore] else []

theorem agrees_of_settles {result : Except String LateInit} {events : List Event}
    (h : Settles result events) : Agrees events result := by
  cases h with
  | unpublished message => exact .inr ⟨rfl, by simp [published, commanded]⟩
  | lost message => exact .inl ⟨rfl, by simp⟩
  | honoured report => exact ⟨Recovery.signature, by simp, by simp, by simp, rfl⟩
  | plain word other report =>
    exact ⟨word, by simp, by simp [other], by simp [published, looked, commanded], rfl⟩

theorem agrees_bootEvents {events : List Event} {result : Except String LateInit} :
    Agrees (bootEvents events) result ↔ Agrees events result := by
  have stores := storesOf_bootEvents events
  have told (answer : Except String Unit) :
      commanded answer ∈ bootEvents events ↔ commanded answer ∈ events :=
    mem_bootEvents.trans (and_iff_left rfl)
  have seen (word : UInt32) : looked word ∈ bootEvents events ↔ looked word ∈ events :=
    mem_bootEvents.trans (and_iff_left rfl)
  cases result with
  | error message => simp only [Agrees, stores, told]
  | ok late => simp only [Agrees, stores, told, seen]

/-- Whatever the board answers and whatever becomes of the charger, a late init comes to an end.
With a result, the word that was read, the boot command and the reset of the word agree. With an
error, the request has been taken away exactly if it was the boot command that the environment
refused. -/
theorem request_lost_iff_refused {σ : Type} (board : Program.Board σ) (charger : Option Charger)
    (s : σ) :
    let run := (lateInit charger).run.run board s
    ∃ result, run.outcome = .ok result ∧ Settles result (bootEvents run.events) ∧
      Agrees run.events result := by
  have ends : Program.Triple board (recorded []) (lateInit charger).run Settled :=
    settled_lateInit charger
  obtain ⟨result, outcome, events, settles, records⟩ := ends s [] rfl
  have same : bootEvents ((lateInit charger).run.run board s).events = events := records
  rw [← same] at settles
  exact ⟨result, outcome, settles, agrees_bootEvents.mp (agrees_of_settles settles)⟩

/-- A request is found, and the environment does not take the boot command. -/
def refusedWorld : Bench.World :=
  { Bench.World.initial with
    alive := Bench.WordWindow.initial.poke ⟨[(Recovery.scratchRead, Recovery.signature)], []⟩
    refused := ["bootcmd"] }

/-- The error comes after the request has been taken away. -/
theorem refused_request_taken_away :
    let run := Bench.run (lateInit none).run refusedWorld
    run.outcome = .ok (.error "bootcmd") ∧ storesOf run.events = [resetStore] ∧
      run.board.alive.words.get Recovery.scratchReset = 0xFFFFFFFF :=
  ⟨rfl, by decide +kernel, by decide +kernel⟩

end Board

end Bringup
