import Bringup.Proofs.LinkSteps
import Bringup.Proofs.Milestones

/-! Bring-up claims no progress that was not made: whatever is asked of the link, in whatever
order, and whatever its registers answer, its phase is justified by what was done to the board. -/
namespace Bringup.Link

open Milestone

section
variable {σ : Type} {board : Program.Board σ} {ms : List Milestone} {α : Type}

/-- The link's phase is justified. -/
def justified : Link → Assertion σ := fun link _ past => Justified link.phase past

/-- The link has come to a phase, and all that this phase claims is there. -/
def standing (phase : Phase) : Link → Assertion σ := fun link _ past =>
  link.phase = phase ∧ Since phase.milestones past

/-- Milestones, whatever the link says of itself. -/
def since (ms : List Milestone) : Link → Assertion σ := fun _ _ past => Since ms past

theorem justified_of_standing {phase : Phase} {link : Link} {s : σ} {past : List Event}
    (h : standing phase link s past) : justified link s past := by
  obtain ⟨hphase, milestones⟩ := h
  exact .inr (hphase ▸ milestones)

theorem setPhase_stands {fail : Link → Assertion σ} (phase : Phase) :
    Action.Triple board fail (since phase.milestones) (setPhase phase)
      fun _ => standing phase :=
  .change fun _ _ _ milestones => ⟨rfl, milestones⟩

/-! ## Steps beside bring-up

None of what is said here minds a store outside of the analogue part. -/

theorem off_analog {offset : Nat} (h : offset < Register.digitalBase) :
    ¬ Register.analogBase ≤ offset :=
  Nat.not_le.mpr (Nat.lt_of_lt_of_le h (by decide))

theorem steady_since (ms : List Milestone) :
    Steady board (Register.analogBase ≤ ·) (since ms) :=
  .of_trace (P := fun _ => Since ms) (fun _ _ _ milestones quiet => milestones.append quiet)
    fun _ _ _ milestones => milestones

theorem steady_standing (phase : Phase) :
    Steady board (Register.analogBase ≤ ·) (standing phase) :=
  .of_trace (P := fun link past => link.phase = phase ∧ Since phase.milestones past)
    (fun _ _ _ h quiet => ⟨h.1, h.2.append quiet⟩) fun _ _ _ h => h

theorem steady_justified : Steady board (Register.analogBase ≤ ·) justified :=
  .of_trace (P := fun link => Justified link.phase)
    (fun _ _ _ hj quiet => hj.imp id fun milestones => milestones.append quiet) fun _ _ _ hj => hj

section
variable {fail inv : Link → Assertion σ} (steady : Steady board (Register.analogBase ≤ ·) inv)
include steady

theorem setAudioClock_steady (rate : UInt32) :
    Action.Triple board fail inv (setAudioClock rate) fun _ => inv :=
  steady.setAudioClock (fun _ _ below => off_analog below) rate

theorem digitalAudio_steady (codec : AudioCodec) (bits : UInt32) :
    Action.Triple board fail inv (liftM (DigitalAudio.setUp codec bits)) fun _ => inv :=
  steady.lift (only_digitalAudio (fun _ _ below => Nat.not_le.mpr below) codec bits)

theorem setUpAudio_steady : Action.Triple board fail inv setUpAudio fun _ => inv :=
  steady.setUpAudio (fun _ _ below => off_analog below) fun _ _ below => Nat.not_le.mpr below

theorem enableAudio_steady (on : Bool) :
    Action.Triple board fail inv (liftM (enableAudio on)) fun _ => inv :=
  steady.lift (only_enableAudio (off_analog (by decide)) on)

theorem setDvi_steady (dvi : Bool) : Action.Triple board fail inv (setDvi dvi) fun _ => inv :=
  steady.setDvi (off_analog (by decide)) (off_analog (by decide)) dvi

end

/-! ## The steps of bring-up -/

/-- Loading the analogue part starts the record anew. -/
theorem loadAnalog_stands {fail pre : Link → Assertion σ} (p : Video.Preset) :
    Action.Triple board fail pre (loadAnalog p) fun _ => standing .phyConfigured := by
  have loaded : Action.Triple board fail pre (liftM (Analog.store (Analog.loadWrites p)))
      fun _ => since [] := by
    refine .lift fun link s past _ => ?_
    obtain ⟨outcome, events⟩ := run_storeAll board .hdmi
      (Analog.doubled (Analog.loadWrites p)) s
    refine ⟨(), outcome, past, p, [], ?_, by simp, trivial⟩
    rw [List.append_nil, loadEvents, ← doubled_loadWrites]
    exact congrArg (past ++ ·) events
  exact loaded.bind fun _ => ((steady_since _).log _ _).bind fun _ =>
    setPhase_stands .phyConfigured

theorem disable_resets {fail pre : Link → Assertion σ} :
    Action.Triple board fail pre disable fun _ link _ _ => link.phase = .uninitialized := by
  have stored : Action.Triple board fail pre (liftM (Analog.store Analog.switchOff))
      fun _ _ _ _ => True :=
    .lift fun link s past _ => ⟨(), (run_storeAll board .hdmi _ s).1, trivial⟩
  exact stored.bind fun _ => .change fun _ _ _ _ => rfl

theorem standing_of_allowed {phase : Phase} (h : phase ≠ .uninitialized) {link : Link} {s : σ}
    {past : List Event} (hj : justified link s past) (allowed : link.phase ∈ [phase]) :
    standing phase link s past := by
  have hphase : link.phase = phase := List.mem_singleton.mp allowed
  refine ⟨hphase, ?_⟩
  rcases hj with none | milestones
  · exact absurd (hphase.symm.trans none) h
  · exact hphase ▸ milestones

/-- The resets leave one event each. -/
theorem resets_append {fail : Link → Assertion σ} (P : List Event → Prop) (asserted : Bool) :
    Action.Triple board fail (fun _ _ past => P past)
      (linkResets.forM fun line => liftM (Program.reset line asserted))
      fun _ _ _ past => ∃ before, P before ∧
        past = before ++ linkResets.map (resetEvent · asserted) := by
  intro link
  rw [Action.exec_forM_lift]
  refine .map _ fun s past hP => ?_
  obtain ⟨outcome, events⟩ := run_resets board linkResets asserted s
  exact ⟨(), outcome, past, hP, congrArg (past ++ ·) events⟩

theorem releaseResets_stands :
    Action.Triple board justified justified releaseResets fun _ => standing .resetReleased := by
  have allowed : Action.Triple board justified justified (require [.phyConfigured])
      fun _ _ _ past => Since [] past :=
    .require (fun _ _ _ hj hmem => (standing_of_allowed (by decide) hj hmem).2) fun _ _ _ hj => hj
  have pulse (stretch : List Event) (h : pulsed stretch) :
      ∀ e ∈ stretch, offAnalog e.request := by
    obtain rfl := h
    simp [resetEvent, offAnalog, Request.Spares]
  have released : Action.Triple board justified
      (fun _ _ past => ∃ before, Since [] before ∧
        past = before ++ linkResets.map (resetEvent · true))
      (linkResets.forM fun line => liftM (releaseReset line)) fun _ => since [pulsed] := by
    refine (resets_append _ false).conseq (fun _ _ _ h => h) ?_
    rintro _ link s past ⟨_, ⟨before, milestones, rfl⟩, rfl⟩
    rw [List.append_assoc]
    exact milestones.reach (pulse _ rfl) rfl
  exact allowed.bind fun _ => (resets_append _ true).bind fun _ => released.bind fun _ =>
    setPhase_stands .resetReleased

theorem awaitAnalog_stands :
    Action.Triple board justified justified awaitAnalog fun _ => standing .phyReady := by
  have allowed : Action.Triple board justified justified (require [.resetReleased])
      fun _ => since [pulsed] :=
    .require (fun _ _ _ hj hmem => (standing_of_allowed (by decide) hj hmem).2) fun _ _ _ hj => hj
  have lock : Action.Triple board justified (since [pulsed])
      (liftM (Analog.awaitLock Analog.pollBudget)) fun found _ _ past =>
        if found then Since [pulsed, locked] past else Since [pulsed] past :=
    .lift fun _ => awaitLock_reaches Analog.pollBudget
  refine allowed.bind fun _ => lock.bind fun found => ?_
  cases found with
  | true =>
    exact ((steady_since [pulsed, locked]).log _ _).bind fun _ => setPhase_stands .phyReady
  | false =>
    exact ((steady_since [pulsed]).log _ _).bind fun _ => disable_resets.bind fun _ =>
      .throw fun _ _ _ none => .inl none

/-- The raster may be set once the analogue part is ready, and again after that. -/
theorem prepare_stands (t : Video.Timing) :
    Action.Triple board justified justified (prepare t) fun _ => standing .timingPrepared := by
  have allowed : Action.Triple board justified justified (require [.phyReady, .timingPrepared])
      fun _ => since [pulsed, locked] := by
    refine .require (fun link s past hj hmem => ?_) fun _ _ _ hj => hj
    rcases List.mem_cons.mp hmem with ready | again
    · exact (standing_of_allowed (by decide) hj (List.mem_singleton.mpr ready)).2
    · have milestones : Since ([pulsed, locked] ++ [prepared]) past :=
        (standing_of_allowed (by decide) hj again).2
      exact milestones.left
  have raster : Action.Triple board justified (since [pulsed, locked])
      (liftM (Window.hdmi.storeAll (Raster.writes t)))
      fun _ => since [pulsed, locked, prepared] := by
    refine .lift fun _ => reaches (run_storeAll board .hdmi _) ?_ ⟨t, by rw [raster_writes]⟩
    intro e he
    obtain ⟨x, hx, rfl⟩ := List.mem_map.mp he
    have below := raster_offsets t x hx
    exact Nat.not_le.mpr (Nat.lt_of_lt_of_le below (by decide))
  exact allowed.bind fun _ => raster.bind fun _ => setPhase_stands .timingPrepared

section
variable {fail : Link → Assertion σ}

theorem takes_since {p : Packet} (placed : p.Placed) :
    p.Takes board fail (since ms) (since (ms ++ [stored p.control])) where
  off := .lift fun _ => reaches_store (off_analog placed.control.2) _ ⟨_, rfl⟩
  send {f} hf := by
    refine .lift fun _ => ?_
    rw [send_eq p hf]
    have filled : (Window.hdmi.storeAll (p.fill f f.sum)).Only offAnalog :=
      only_storeAll fun x hx => off_analog (fill_offsets placed hf f.sum x hx).2
    exact Program.Triple.bind (reaches_store (off_analog placed.control.2) _ ⟨_, rfl⟩) fun _ =>
      (aside filled).bind fun _ => .pure fun _ _ milestones => milestones
  log level text := (steady_since _).log level text

end

/-- Whether or not packets are sent, all three of their controls are set. -/
theorem sendInfoframes_stands (code : UInt8) (t : Video.Timing) (format : VideoFormat) :
    Action.Triple board justified justified (sendInfoframes code t format)
      fun _ => standing .infoframesSet := by
  have allowed : Action.Triple board justified justified (require [.timingPrepared])
      fun _ => since Phase.timingPrepared.milestones :=
    .require (fun _ _ _ hj hmem => (standing_of_allowed (by decide) hj hmem).2) fun _ _ _ hj => hj
  exact sendInfoframes_takes allowed (takes_since vendor_placed) (takes_since video_placed)
    (takes_since audio_placed) (setPhase_stands .infoframesSet) code t format

/-! ## Bring-up as a whole -/

theorem justified_of {a : Action α} {phase : Phase} {pre : Link → Assertion σ}
    (h : Action.Triple board justified pre a fun _ => standing phase) :
    Action.Triple board justified pre a fun _ => justified :=
  h.conseq (fun _ _ _ hpre => hpre) fun _ _ _ _ => justified_of_standing

/-- Starting from anywhere, since the analogue part is loaded first. -/
theorem setUp_stands {pre : Link → Assertion σ} (source : Source) (p : Video.Preset) :
    Action.Triple board justified pre (setUp source p) fun _ => standing .timingPrepared := by
  refine (justified_of (loadAnalog_stands p)).bind fun _ => ?_
  refine (justified_of releaseResets_stands).bind fun _ => ?_
  refine (justified_of awaitAnalog_stands).bind fun _ => ?_
  refine (steady_justified.selectSource source).bind fun _ => ?_
  refine (steady_justified.displayTop _).bind fun _ => ?_
  exact prepare_stands p.timing

theorem or_and_self (word mask : UInt32) : (word ||| mask) &&& mask = mask := by
  apply UInt32.toBitVec_inj.mp
  apply BitVec.eq_of_getLsbD_eq
  intro i _
  simp only [UInt32.toBitVec_and, UInt32.toBitVec_or, BitVec.getLsbD_and, BitVec.getLsbD_or]
  cases mask.toBitVec.getLsbD i <;> simp

theorem enable_stands (p : Video.Preset) :
    Action.Triple board justified justified (enable p) fun _ => standing .enabled := by
  have steady : Steady board (Register.analogBase ≤ ·) (standing .infoframesSet) :=
    steady_standing .infoframesSet
  obtain ⟨generator, hgenerator⟩ := generator_ends p
  -- Whatever the control word holds, it is stored with the system bit.
  have switched (control : UInt32) : Action.Triple board justified
      (since Phase.infoframesSet.milestones)
      (liftM (Window.hdmi.store Register.control0 (control ||| systemBit)))
      fun _ => since Phase.enabled.milestones := by
    have set : (control ||| systemBit) &&& systemBit ≠ 0 := by
      rw [or_and_self]
      decide
    exact .lift fun _ => reaches_store (off_analog (by decide)) _ ⟨_, rfl, set⟩
  have looked : Action.Triple board justified (standing .infoframesSet)
      (liftM (Window.hdmi.load Register.control0)) fun _ => since Phase.infoframesSet.milestones :=
    (steady.lift (p := Window.hdmi.load Register.control0) (.request trivial)).conseq
      (fun _ _ _ h => h) fun _ _ _ _ h => h.2
  have computed : Action.Triple board justified (since Phase.enabled.milestones)
      (liftM (SyncGenerator.ofTiming p.timing)) fun _ => since Phase.enabled.milestones :=
    .checked hgenerator fun _ _ _ milestones => milestones
  refine (justified_of (prepare_stands p.timing)).bind fun _ => ?_
  refine (sendInfoframes_stands p.videoCode p.timing .flat).bind fun _ => ?_
  refine (setUpAudio_steady steady).bind fun _ => ?_
  refine (enableAudio_steady steady true).bind fun _ => ?_
  refine (setDvi_steady steady false).bind fun _ => ?_
  refine looked.bind fun control => ?_
  refine (switched control).bind fun _ => ?_
  refine computed.bind fun generator => ?_
  refine ((steady_since _).displayTop generator.writes).bind fun _ => ?_
  exact setPhase_stands .enabled

/-- A rejected value is logged, and nothing is done. -/
theorem accept_justified (complaint : String) (e : Except LinkError α) :
    Action.Triple board justified justified (accept complaint e) fun _ => justified := by
  cases e with
  | ok x => exact .pure fun _ _ _ hj => hj
  | error e => exact (steady_justified.log _ _).bind fun _ => .throw fun _ _ _ hj => hj

theorem display_justified (controller preset : UInt8) :
    Action.Triple board justified justified (display controller preset) fun _ => justified := by
  have steady : Steady board (Register.analogBase ≤ ·) justified := steady_justified
  refine (steady.log _ _).bind fun _ => ?_
  refine (accept_justified _ _).bind fun mode => ?_
  refine (accept_justified _ _).bind fun source => ?_
  refine (steady.log _ _).bind fun _ => ?_
  refine (steady.lift (only_pulse fun _ _ => trivial)).bind fun _ => ?_
  refine (justified_of (setUp_stands source mode)).bind fun _ => ?_
  obtain ⟨feed, hfeed⟩ := feed_ends mode
  have computed : Action.Triple board justified justified (liftM mode.feed)
      fun _ => justified := .checked hfeed fun _ _ _ hj => hj
  refine computed.bind fun _ => ?_
  refine (steady.showDisplay _).bind fun _ => ?_
  exact (justified_of (enable_stands mode)).bind fun _ => .pure fun _ _ _ hj => hj

/-- Whatever is asked of the link, its phase stays justified. -/
theorem perform_justified (op : Operation) :
    Action.Triple board justified justified op.perform fun _ => justified := by
  have done {a : Action Unit} (h : Action.Triple board justified justified a fun _ => justified) :
      Action.Triple board justified justified (a >>= fun _ => pure none)
        fun (_ : Option Video.Resolution) => justified :=
    h.bind fun _ => .pure fun _ _ _ hj => hj
  have steady : Steady board (Register.analogBase ≤ ·) justified := steady_justified
  cases op with
  | pulseCore => exact done (steady.lift (only_pulse fun _ _ => trivial))
  | loadAnalog preset => exact done (justified_of (loadAnalog_stands preset))
  | disable =>
    exact done (disable_resets.conseq (fun _ _ _ h => h) fun _ _ _ _ none => .inl none)
  | releaseResets => exact done (justified_of releaseResets_stands)
  | awaitAnalog => exact done (justified_of awaitAnalog_stands)
  | selectSource source => exact done (steady.selectSource source)
  | prepare timing => exact done (justified_of (prepare_stands timing))
  | sendInfoframes code timing format =>
    exact done (justified_of (sendInfoframes_stands code timing format))
  | setAudioClock rate => exact done (setAudioClock_steady steady rate)
  | setUpDigitalAudio codec bits => exact done (digitalAudio_steady steady codec bits)
  | setUpAudio => exact done (setUpAudio_steady steady)
  | enableAudio on => exact done (enableAudio_steady steady on)
  | setDvi dvi => exact done (setDvi_steady steady dvi)
  | setUp source preset => exact done (justified_of (setUp_stands source preset))
  | enable preset => exact done (justified_of (enable_stands preset))
  | display controller preset =>
    exact (display_justified controller preset).bind fun _ => .pure fun _ _ _ hj => hj

end

end Bringup.Link
