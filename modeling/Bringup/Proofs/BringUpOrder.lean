import Bringup.Proofs.LinkSteps
import Bringup.Proofs.LockPolling

/-! Bring-up step by step. Wherever the link stands and whatever its words hold, each step succeeds
in the phase that it asks for, as long as the clock locks in time. Enabling asks for the phase
before the infoframes, since it sends them itself. -/
namespace Bringup.Link

open Program (Only)

/-! ## Steps that cannot fail -/

section
variable {σ : Type} {board : Program.Board σ} {α : Type}

/-- For actions that end well whatever happens. -/
def never : Link → Assertion σ := fun _ _ _ => False

/-- The link is in the phase. -/
def inPhase (phase : Phase) : Link → Assertion σ := fun link _ _ => link.phase = phase

/-- No request but a step's own end changes the phase. -/
theorem steady_inPhase (phase : Phase) :
    Steady board (fun _ => False) (inPhase phase) :=
  .of_trace (P := fun link _ => link.phase = phase) (fun _ _ _ h _ => h) fun _ _ _ h => h

theorem setPhase_inPhase {fail pre : Link → Assertion σ} (phase : Phase) :
    Action.Triple board fail pre (setPhase phase) fun _ => inPhase phase :=
  .change fun _ _ _ _ => rfl

/-- A step is not refused in a phase that it allows. -/
theorem require_allowed {allowed : List Phase} {pre : Link → Assertion σ}
    (h : ∀ link s past, pre link s past → link.phase ∈ allowed) :
    Action.Triple board never pre (require allowed) fun _ => pre := by
  intro link
  rw [exec_require]
  refine .pure fun s past hpre => ?_
  rw [if_pos (h link s past hpre)]
  exact hpre

/-- In any other phase it is refused, and nothing is asked of the board. -/
theorem exec_refused {allowed : List Phase} {link : Link} (h : link.phase ∉ allowed)
    (f : Unit → Action α) :
    (require allowed >>= f).exec link = pure (.error (.invalidState link.phase), link) := by
  rw [Action.exec_bind, exec_require, if_neg h]
  rfl

/-- The raster may be set once the clock has locked, and again after that. -/
theorem prepare_succeeds (t : Video.Timing) {phase : Phase}
    (h : phase ∈ [.phyReady, .timingPrepared]) :
    Action.Triple board never (inPhase phase) (prepare t) fun _ => inPhase .timingPrepared :=
  (require_allowed fun _ _ _ hphase => hphase ▸ h).bind fun _ =>
    ((steady_inPhase phase).lift (only_raster (fun _ _ => id) t)).bind fun _ => setPhase_inPhase _

theorem sendInfoframes_succeeds (code : UInt8) (t : Video.Timing) (format : VideoFormat) :
    Action.Triple board never (inPhase .timingPrepared) (sendInfoframes code t format)
      fun _ => inPhase .infoframesSet := by
  have allowed : Action.Triple board never (inPhase .timingPrepared) (require [.timingPrepared])
      fun _ => inPhase .timingPrepared :=
    require_allowed fun _ _ _ phase => List.mem_singleton.mpr phase
  have takes {p : Packet} (placed : p.Placed) :
      p.Takes board never (inPhase .timingPrepared) (inPhase .timingPrepared) :=
    (steady_inPhase .timingPrepared).takes (fun _ _ _ => id) placed
  exact sendInfoframes_takes allowed (takes vendor_placed) (takes video_placed)
    (takes audio_placed) (setPhase_inPhase _) code t format

/-- Enabling sets the raster and sends the infoframes itself. -/
theorem enable_succeeds (p : Video.Preset) {phase : Phase}
    (h : phase ∈ [.phyReady, .timingPrepared]) :
    Action.Triple board never (inPhase phase) (enable p) fun _ => inPhase .enabled := by
  have framed : Steady board (fun _ => False) (inPhase .infoframesSet) := steady_inPhase _
  obtain ⟨generator, hgenerator⟩ := generator_ends p
  have looked : Action.Triple board never (inPhase .infoframesSet)
      (liftM (Window.hdmi.load Register.control0)) fun _ => inPhase .infoframesSet :=
    framed.lift (.request trivial)
  have computed : Action.Triple board never (inPhase .infoframesSet)
      (liftM (SyncGenerator.ofTiming p.timing)) fun _ => inPhase .infoframesSet :=
    .checked hgenerator fun _ _ _ phase => phase
  refine (prepare_succeeds p.timing h).bind fun _ => ?_
  refine (sendInfoframes_succeeds p.videoCode p.timing .flat).bind fun _ => ?_
  refine (framed.setUpAudio (fun _ _ _ => id) fun _ _ _ => id).bind fun _ => ?_
  refine (framed.lift (only_enableAudio id true)).bind fun _ => ?_
  refine (framed.setDvi id id false).bind fun _ => ?_
  refine looked.bind fun control => ?_
  refine (framed.lift (only_store id _)).bind fun _ => ?_
  refine computed.bind fun generator => ?_
  exact (framed.displayTop _).bind fun _ => setPhase_inPhase _

/-- In any other phase, the one after the infoframes among them, nothing is even tried. -/
theorem enable_refused (p : Video.Preset) {link : Link}
    (h : link.phase ∉ [.phyReady, .timingPrepared]) :
    (enable p).exec link = pure (.error (.invalidState link.phase), link) := by
  rw [enable, Action.exec_bind, prepare, exec_refused h]
  rfl

end

/-! ## Until the clock locks -/

open WindowMemory (board)

/-- One of the first 500 looks at the lock status finds the clock locked. -/
def Locks (m : WindowMemory) : Prop := ∃ k < 500, m.statuses k &&& 0x01 ≠ 0

/-- A phase before the lock, with the looks at it still to come. -/
def locking (phase : Phase) : Link → Assertion WindowMemory := fun link m _ =>
  link.phase = phase ∧ Locks m

/-- Not a look at the lock status. -/
def Unlooked (r : Request) : Prop := r ≠ .load .hdmi Register.analogStatus

theorem run_statuses {α : Type} {p : Program α} (h : p.Only Unlooked) (m : WindowMemory) :
    (p.run board m).board.statuses = m.statuses := by
  induction p generalizing m with
  | done | fault => rfl
  | ask r next ih =>
    obtain ⟨hr, hnext⟩ := h
    have same : (board m r).2.statuses = m.statuses := by
      cases r with
      | load w offset =>
        have plain : ¬ (w = .hdmi ∧ offset = Register.analogStatus) := by
          rintro ⟨rfl, rfl⟩
          exact hr rfl
        exact congrArg (fun shown => shown.2.statuses) (m.look_plain plain)
      | _ => rfl
    exact (ih _ (hnext _) _).trans same

theorem lift_locking {α : Type} {fail : Link → Assertion WindowMemory} {p : Program α}
    (h : p.Only Unlooked) : Action.Triple board fail (fun _ m _ => Locks m) (liftM p)
      fun _ _ m _ => Locks m := by
  refine .lift fun link m past lock => ?_
  obtain ⟨x, hx, -⟩ := h.ends board m
  have same := run_statuses h m
  refine ⟨x, hx, ?_⟩
  dsimp only [Locks]
  rw [same]
  exact lock

theorem loadAnalog_locking (p : Video.Preset) :
    Action.Triple board never (fun _ m _ => Locks m) (loadAnalog p)
      fun _ => locking .phyConfigured := by
  have stored : (Analog.store (Analog.loadWrites p)).Only Unlooked :=
    .forM fun _ _ => .request nofun
  have logged (level : Log.Level) (text : String) : (Program.log level text).Only Unlooked :=
    .request nofun
  exact (lift_locking stored).bind fun _ => (lift_locking (logged _ _)).bind fun _ =>
    .change fun _ _ _ lock => ⟨rfl, lock⟩

theorem releaseResets_locking :
    Action.Triple board never (locking .phyConfigured) releaseResets
      fun _ => locking .resetReleased := by
  have allowed : Action.Triple board never (locking .phyConfigured) (require [.phyConfigured])
      fun _ _ m _ => Locks m :=
    (require_allowed fun _ _ _ h => List.mem_singleton.mpr h.1).conseq (fun _ _ _ h => h)
      fun _ _ _ _ h => h.2
  have pulse (asserted : Bool) : Action.Triple board never (fun _ m _ => Locks m)
      (linkResets.forM fun line => liftM (Program.reset line asserted)) fun _ _ m _ => Locks m := by
    have resets : (linkResets.forM fun line => Program.reset line asserted).Only Unlooked :=
      .forM fun _ _ => .request nofun
    intro link
    have lifted : Action.Triple board never (fun _ m _ => Locks m)
        (liftM (linkResets.forM fun line => Program.reset line asserted)) fun _ _ m _ => Locks m :=
      lift_locking resets
    rw [Action.exec_forM_lift, ← Action.exec_liftM]
    exact lifted link
  exact allowed.bind fun _ => (pulse true).bind fun _ => (pulse false).bind fun _ =>
    .change fun _ _ _ lock => ⟨rfl, lock⟩

theorem awaitAnalog_succeeds :
    Action.Triple board never (locking .resetReleased) awaitAnalog fun _ => inPhase .phyReady := by
  have allowed : Action.Triple board never (locking .resetReleased) (require [.resetReleased])
      fun _ => locking .resetReleased :=
    require_allowed fun _ _ _ h => List.mem_singleton.mpr h.1
  have found : Action.Triple board never (locking .resetReleased)
      (liftM (Analog.awaitLock Analog.pollBudget)) fun found _ _ _ => found = true := by
    refine .lift fun _ m _ h => ?_
    obtain ⟨found, outcome, lock⟩ := awaitLock_answers Analog.pollBudget m
    exact ⟨found, outcome, lock.mpr h.2⟩
  refine allowed.bind fun _ => found.bind fun found => ?_
  cases found with
  | true =>
    have logged : Action.Triple board never (fun _ _ _ => true = true)
        (liftM (Program.log .info "HDMI: phy ready...")) fun _ _ _ _ => True :=
      .lift fun _ _ _ _ => ⟨(), rfl, trivial⟩
    exact logged.bind fun _ => setPhase_inPhase .phyReady
  | false => exact fun _ _ _ impossible => absurd impossible Bool.false_ne_true

/-! ## Steps one after another -/

/-- What each operation comes to, and the phase that it leaves the link in. -/
def recordAll : List Operation → Link →
    Program (List (Except LinkError (Option Video.Resolution) × Phase))
  | [], _ => return []
  | op :: ops, link => do
      let (result, link) ← op.perform.exec link
      return (result, link.phase) :: (← recordAll ops link)

/-- A call that went well. -/
abbrev wentWell (phase : Phase) : Except LinkError (Option Video.Resolution) × Phase :=
  (.ok none, phase)

/-- The record of a list of operations, from wherever the link is. -/
def Records (pre : Link → Assertion WindowMemory) (ops : List Operation)
    (record : List (Except LinkError (Option Video.Resolution) × Phase)) : Prop :=
  ∀ link, Program.Triple board (pre link) (recordAll ops link) fun shown _ _ => shown = record

namespace Records

variable {pre mid : Link → Assertion WindowMemory} {op : Operation} {ops : List Operation}
  {phase : Phase} {rest : List (Except LinkError (Option Video.Resolution) × Phase)}

theorem nil : Records pre [] [] := fun _ => .pure fun _ _ _ => rfl

/-- An operation that succeeds is recorded with the phase it comes to. -/
theorem cons {a : Action Unit} (perform : op.perform = do a; return none)
    (step : Action.Triple board never pre a fun _ => mid)
    (reached : ∀ link m past, mid link m past → link.phase = phase)
    (others : Records mid ops rest) : Records pre (op :: ops) (wentWell phase :: rest) := by
  intro link
  have performed : Action.Triple board never pre op.perform
      fun x link m past => x = none ∧ mid link m past := by
    rw [perform]
    exact step.bind fun _ => .pure fun _ _ _ h => ⟨rfl, h⟩
  refine (performed link).bind fun (result, link) => ?_
  cases result with
  | error e => exact fun _ _ impossible => absurd impossible id
  | ok x =>
    refine .of_fact fun none_shown => ?_
    intro m past hmid
    have same := reached link m past hmid
    subst none_shown same
    have listed : Program.Triple board (mid link)
        (do return (.ok none, link.phase) :: (← recordAll ops link))
        fun shown _ _ => shown = wentWell link.phase :: rest :=
      (others link).bind fun tail => .pure fun _ _ h => by rw [h]
    exact listed m past hmid

/-- An operation that is refused leaves the link as it is. -/
theorem refused {e : LinkError}
    (h : ∀ link m past, pre link m past →
      op.perform.exec link = pure (.error e, link) ∧ link.phase = phase) :
    Records pre [op] [(.error e, phase)] := by
  intro link m past hpre
  obtain ⟨hexec, hphase⟩ := h link m past hpre
  refine ⟨_, ?_, rfl⟩
  rw [recordAll, hexec, ← hphase]
  rfl

end Records

theorem Records.outcome {pre : Link → Assertion WindowMemory} {ops : List Operation}
    {record : List (Except LinkError (Option Video.Resolution) × Phase)}
    (h : Records pre ops record) {link : Link} {m : WindowMemory} (hpre : pre link m []) :
    ((recordAll ops link).run board m).outcome = .ok record := by
  obtain ⟨shown, outcome, rfl⟩ := h link m [] hpre
  exact outcome

/-! ## The steps of the documentation -/

/-- The steps up to the raster. -/
def rasterSteps (p : Video.Preset) : List Operation :=
  [.loadAnalog p, .releaseResets, .awaitAnalog, .prepare p.timing]

/-- What they come to, one by one. -/
def rasterRecord : List (Except LinkError (Option Video.Resolution) × Phase) :=
  [.phyConfigured, .resetReleased, .phyReady, .timingPrepared].map wentWell

/-- All steps, each followed by the one that is documented to come after it. -/
def documentedSteps (p : Video.Preset) (format : VideoFormat) : List Operation :=
  rasterSteps p ++ [.sendInfoframes p.videoCode p.timing format, .enable p]

section
variable (p : Video.Preset)

theorem raster_records {ops : List Operation}
    {rest : List (Except LinkError (Option Video.Resolution) × Phase)}
    (others : Records (inPhase .timingPrepared) ops rest) :
    Records (fun _ m _ => Locks m) (rasterSteps p ++ ops) (rasterRecord ++ rest) :=
  .cons rfl (loadAnalog_locking p) (fun _ _ _ h => h.1) <|
    .cons rfl releaseResets_locking (fun _ _ _ h => h.1) <|
    .cons rfl awaitAnalog_succeeds (fun _ _ _ h => h) <|
    .cons rfl (prepare_succeeds p.timing (by decide)) (fun _ _ _ h => h) others

/-- Once the infoframes are sent, the link can no longer be enabled. -/
theorem documented_records (format : VideoFormat) :
    Records (fun _ m _ => Locks m) (documentedSteps p format)
      (rasterRecord ++
        [wentWell .infoframesSet, (.error (.invalidState .infoframesSet), .infoframesSet)]) := by
  refine raster_records p ?_
  refine .cons rfl (sendInfoframes_succeeds p.videoCode p.timing format) (fun _ _ _ h => h) ?_
  refine .refused fun link m past hphase => ⟨?_, hphase⟩
  have phase : link.phase = .infoframesSet := hphase
  have refused : (enable p).exec link = pure (.error (.invalidState link.phase), link) :=
    enable_refused p (by rw [phase]; decide)
  rw [phase] at refused
  rw [Operation.perform, Action.exec_bind, refused]
  rfl

theorem shortened_records :
    Records (fun _ m _ => Locks m) (rasterSteps p ++ [.enable p])
      (rasterRecord ++ [wentWell .enabled]) :=
  raster_records p <| .cons rfl (enable_succeeds p (by decide)) (fun _ _ _ h => h) .nil

end

/-- Wherever the link stands, and whatever the windows hold, if the clock locks in time then the
steps of the documentation succeed one after another up to the infoframes, and then enabling is
refused. It succeeds where the step before it is left out. In a phase other than the two that the
raster may be set in, enabling asks nothing of the board and leaves the link as it is. -/
theorem documented_steps_refused (p : Video.Preset) (format : VideoFormat) (link : Link)
    {m : WindowMemory} (lock : Locks m) :
    ((recordAll (documentedSteps p format) link).run board m).outcome =
      .ok (rasterRecord ++
        [wentWell .infoframesSet, (.error (.invalidState .infoframesSet), .infoframesSet)]) ∧
    ((recordAll (rasterSteps p ++ [.enable p]) link).run board m).outcome =
      .ok (rasterRecord ++ [wentWell .enabled]) ∧
    ∀ link : Link, link.phase ∉ [.phyReady, .timingPrepared] →
      (enable p).exec link = pure (.error (.invalidState link.phase), link) :=
  ⟨(documented_records p format).outcome lock, (shortened_records p).outcome lock,
    fun _ h => enable_refused p h⟩

/-- Windows of zeros, and a clock that has locked at the first look. -/
def lockedWindows : WindowMemory := ⟨fun _ _ => 0, fun _ => 1⟩

theorem lockedWindows_locks : Locks lockedWindows := ⟨0, by decide, by decide⟩

/-- A new link whose clock has locked. -/
theorem full_hd_steps_refused :
    Locks lockedWindows ∧
    ((recordAll (documentedSteps .fhd1080 .flat) .initial).run board lockedWindows).outcome =
      .ok (rasterRecord ++
        [wentWell .infoframesSet, (.error (.invalidState .infoframesSet), .infoframesSet)]) :=
  ⟨lockedWindows_locks, (documented_steps_refused .fhd1080 .flat .initial lockedWindows_locks).1⟩

/-- The documentation has it enabled at the end. -/
theorem full_hd_steps_not_enabled :
    Locks lockedWindows ∧
    ((recordAll (documentedSteps .fhd1080 .flat) .initial).run board lockedWindows).outcome ≠
      .ok (rasterRecord ++ [wentWell .infoframesSet, wentWell .enabled]) := by
  refine ⟨lockedWindows_locks, fun enabled => ?_⟩
  rw [(documented_records .fhd1080 .flat).outcome lockedWindows_locks] at enabled
  cases enabled

end Bringup.Link
