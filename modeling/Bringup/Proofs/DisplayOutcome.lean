import Bringup.Proofs.BringUpStores
import Bringup.Proofs.Milestones

/-! The three ways in which a full bring-up can end. It is turned down before anything is asked of
the board, or it gives up waiting for the clock and cleans up, or it puts the picture up. None of
its steps is ever refused, wherever the link stood before. -/
namespace Bringup

/-- A line of the log. -/
def Request.Logs : Request → Prop
  | .log _ => True
  | _ => False

/-- Not a call of the display controller. -/
def Request.SparesController : Request → Prop
  | .showDisplay _ => False
  | _ => True

/-- Nothing that a picture needs: leaves the display controller, the display top and the first
control word alone. -/
def Request.SparesPicture : Request → Prop
  | .showDisplay _ => False
  | .load w _ => w ≠ .displayTop
  | .store w offset _ => w ≠ .displayTop ∧ ¬ (w = .hdmi ∧ offset = 0x10000)
  | _ => True

theorem Request.spares_controller {r : Request} (h : r.SparesPicture) : r.SparesController := by
  cases r <;> trivial

theorem Request.analog_spares_picture {offset : Nat} (h : Link.Register.analogBase ≤ offset)
    (value : UInt32) : (Request.store .hdmi offset value).SparesPicture := by
  have below : 0x10000 < Link.Register.analogBase := by decide
  refine ⟨nofun, fun same => ?_⟩
  obtain ⟨-, rfl⟩ := same
  omega

namespace Link

open Program (Only)
open WindowMemory (board)

/-! ## Bring-up as one program -/

/-- Load the analogue part and pulse the resets of the link. -/
def startClock (p : Video.Preset) : Program Unit := do
  Analog.store (Analog.loadWrites p)
  Program.log .debug s!"HDMI: phy configured for preset {p.index}"
  linkResets.forM fun line => assertReset line
  linkResets.forM fun line => releaseReset line

/-- Say that the clock is locked, select the source and describe the raster. -/
def layOut (source : Source) (p : Video.Preset) : Program Unit := do
  Program.log .info "HDMI: phy ready..."
  selectSource source
  Window.displayTop.storeAll SyncGenerator.stopped.writes
  Window.hdmi.storeAll (Raster.writes p.timing)

section
variable (source : Source) (p : Video.Preset) (link : Link)

theorem loadAnalog_exec : (loadAnalog p).exec link = do
    Analog.store (Analog.loadWrites p)
    Program.log .debug s!"HDMI: phy configured for preset {p.index}"
    return (.ok (), ⟨.phyConfigured, link.dvi⟩) := by
  simp [loadAnalog]

theorem releaseResets_exec (allowed : link.phase = .phyConfigured) : releaseResets.exec link = do
    linkResets.forM fun line => assertReset line
    linkResets.forM fun line => releaseReset line
    return (.ok (), ⟨.resetReleased, link.dvi⟩) := by
  simp only [releaseResets, Action.exec_bind, exec_require, allowed, List.mem_singleton, if_true,
    Action.exec_forM_lift, exec_setPhase, bind_map_left, pure_bind]

theorem prepare_exec (t : Video.Timing) (allowed : link.phase = .phyReady) :
    (prepare t).exec link = do
      Window.hdmi.storeAll (Raster.writes t)
      return (.ok (), ⟨.timingPrepared, link.dvi⟩) := by
  simp [prepare, allowed]

/-- Every step finds the phase that it asks for, wherever the link stood before. -/
theorem setUp_exec : (setUp source p).exec link = do
    startClock p
    if ← Analog.awaitLock Analog.pollBudget then
      layOut source p
      return (.ok (), ⟨.timingPrepared, link.dvi⟩)
    else
      giveUp
      return (.error .phyNotReady, ⟨.uninitialized, link.dvi⟩) := by
  simp only [setUp, startClock, Action.exec_bind, loadAnalog_exec, releaseResets_exec,
    awaitAnalog_exec, bind_assoc, pure_bind]
  refine bind_congr fun _ => bind_congr fun _ => bind_congr fun _ => bind_congr fun _ =>
    bind_congr fun found => ?_
  cases found <;> simp [layOut, prepare_exec]

/-- All that a bring-up does before it looks whether the clock is locked. -/
def opening (controller : UInt8) (p : Video.Preset) : Program Unit := do
  Program.log .info s!"HDMI: display.{controller}"
  Program.log .info
    s!"HDMI: display.{controller}, preset {p.index} ({p.resolution.width} * {p.resolution.height})"
  pulseCore
  startClock p

theorem display_exec {controller preset : UInt8} {feed : Video.Feed}
    (hp : presetOfIndex preset = .ok p) (hsource : Source.ofIndex controller = .ok source)
    (hfeed : p.feed = .ok feed) : (display controller preset).exec link = do
      opening controller p
      if ← Analog.awaitLock Analog.pollBudget then
        layOut source p
        Program.showDisplay ⟨controller, p.resolution, p.timing, feed⟩
        let (result, link) ← (enable p).exec ⟨.timingPrepared, link.dvi⟩
        return (result.map fun _ => p.resolution, link)
      else
        giveUp
        return (.error .phyNotReady, ⟨.uninitialized, link.dvi⟩) := by
  have computed (link : Link) : Action.exec (liftM p.feed) link = pure (.ok feed, link) := by
    rw [hfeed]
    rfl
  simp only [display, hp, hsource, accept, opening, Action.exec_bind, Action.exec_liftM,
    Action.exec_pure, setUp_exec, computed, bind_assoc, pure_bind, bind_map_left]
  refine bind_congr fun _ => bind_congr fun _ => bind_congr fun _ => bind_congr fun _ =>
    bind_congr fun found => ?_
  cases found with
  | false => simp
  | true =>
    simp only [if_true, bind_assoc, pure_bind]
    refine bind_congr fun _ => bind_congr fun _ => bind_congr fun r => ?_
    rcases r with ⟨_ | _, _⟩ <;> rfl

end

theorem presetOfIndex_unsupported {i : UInt8} (h : 2 < i) :
    presetOfIndex i = .error (.unsupportedPreset i) := by
  have absent : Video.Preset.ofIndex? i = none := by
    unfold Video.Preset.ofIndex?
    grind
  rw [presetOfIndex, absent]

/-- The mode that each of the three numbers stands for. -/
def modeOf (i : UInt8) : Video.Preset :=
  if i = 0 then .hd720 else if i = 1 then .fhd1080 else .wide720

/-- The picture of each mode. -/
def pictureOf : Video.Preset → Video.Resolution
  | .hd720 => ⟨1280, 720⟩
  | .fhd1080 => ⟨1920, 1080⟩
  | .wide720 => ⟨1920, 720⟩

theorem resolution_eq (p : Video.Preset) : p.resolution = pictureOf p := by cases p <;> rfl

theorem presetOfIndex_supported {i : UInt8} (h : i ≤ 2) : presetOfIndex i = .ok (modeOf i) := by
  have known : i = 0 ∨ i = 1 ∨ i = 2 := by grind
  rcases known with rfl | rfl | rfl <;> rfl

theorem sourceOfIndex_unsupported {i : UInt8} (h : 2 < i) :
    Source.ofIndex i = .error (.unsupportedSource i) := by
  unfold Source.ofIndex
  grind

theorem sourceOfIndex_supported {i : UInt8} (h : i ≤ 2) : ∃ s, Source.ofIndex i = .ok s := by
  have known : i = 0 ∨ i = 1 ∨ i = 2 := by grind
  rcases known with rfl | rfl | rfl <;> exact ⟨_, rfl⟩

theorem display_exec_preset {preset : UInt8} (h : 2 < preset) (controller : UInt8) (link : Link) :
    (display controller preset).exec link = do
      Program.log .info s!"HDMI: display.{controller}"
      Program.log .error s!"HDMI: not support preset {preset}"
      return (.error (.unsupportedPreset preset), link) := by
  simp [display, presetOfIndex_unsupported h, accept]

theorem display_exec_source {controller preset : UInt8} (supported : preset ≤ 2)
    (h : 2 < controller) (link : Link) :
    (display controller preset).exec link = do
      Program.log .info s!"HDMI: display.{controller}"
      Program.log .error s!"HDMI: no source for display.{controller}"
      return (.error (.unsupportedSource controller), link) := by
  simp [display, presetOfIndex_supported supported, sourceOfIndex_unsupported h, accept]

/-! ## What the parts ask for -/

section
variable {ok : Request → Prop} (logs : ∀ entry, ok (.log entry))
include logs

section
variable (resets : ∀ line asserted, ok (.reset line asserted))
  (stores : ∀ offset value, Register.analogBase ≤ offset → ok (.store .hdmi offset value))
include resets stores

/-- Logs, resets and stores to the analogue part. -/
theorem only_startClock (p : Video.Preset) : (startClock p).Only ok := by
  have analog : (Analog.store (Analog.loadWrites p)).Only ok :=
    .forM fun x hx => .request (stores _ _ ((analog_offsets p).1 x hx))
  have pulses (asserted : Bool) :
      (linkResets.forM fun line => Program.reset line asserted).Only ok :=
    .forM fun _ _ => .request (resets _ _)
  exact analog.bind fun _ => (Only.request (logs _)).bind fun _ => (pulses true).bind fun _ =>
    pulses false

theorem only_opening (controller : UInt8) (p : Video.Preset) : (opening controller p).Only ok :=
  (Only.request (logs _)).bind fun _ => (Only.request (logs _)).bind fun _ =>
    (only_pulse resets).bind fun _ => only_startClock logs resets stores p

end

/-- Logs and stores. -/
theorem only_layOut (stores : ∀ w offset value, ok (.store w offset value)) (source : Source)
    (p : Video.Preset) : (layOut source p).Only ok :=
  Only.bind (.request (logs _)) fun _ => Only.bind (.request (stores _ _ _)) fun _ =>
    Only.bind (.forM fun _ _ => .request (stores _ _ _)) fun _ =>
      .forM fun _ _ => .request (stores _ _ _)

end

section
variable {σ α : Type} {board : Program.Board σ}

/-- The display controller has not been called. -/
def uncalled : Assertion σ := fun _ past => ∀ e ∈ past, e.request.SparesController

theorem lift_uncalled {p : Program α} (h : p.Only Request.SparesController) :
    Kept board uncalled (liftM p) :=
  .lift h.all

theorem log_uncalled (level : Log.Level) (text : String) :
    Kept board uncalled (liftM (Program.log level text)) :=
  lift_uncalled (.request trivial)

theorem store_uncalled (w : Window) (offset : Nat) (value : UInt32) :
    Kept board uncalled (liftM (w.store offset value)) :=
  lift_uncalled (.request trivial)

theorem only_stores (w : Window) (writes : List WordWrite) :
    (w.storeAll writes).Only Request.SparesController :=
  .forM fun _ _ => .request trivial

theorem only_masked (w : Window) (offset : Nat) (value mask : UInt32) :
    (w.storeMasked offset value mask).Only Request.SparesController :=
  Only.bind (.request trivial) fun _ => .request trivial

theorem takes_uncalled (p : Packet) :
    p.Takes board (fun _ => uncalled) (fun _ => uncalled) (fun _ => uncalled) where
  off := store_uncalled .hdmi _ _
  send hf := by
    rw [send_eq p hf]
    exact lift_uncalled (Only.bind (.request trivial) fun _ =>
      (only_stores .hdmi _).bind fun _ => trivial)
  log := log_uncalled

theorem setUpAudio_uncalled : Kept board uncalled setUpAudio := by
  have clock : Kept board uncalled (setAudioClock defaultSampleRate) :=
    setAudioClock_keeps (store_uncalled .hdmi _) (fun _ => lift_uncalled (only_stores .hdmi _))
      log_uncalled _
  have digital : (DigitalAudio.setUp .pcm defaultSampleBits).Only Request.SparesController :=
    (only_stores .hdmi _).bind fun _ => Only.bind (.request trivial) fun _ =>
    (only_stores .hdmi _).bind fun _ => (only_stores .hdmi _).bind fun _ =>
    (only_masked .hdmi _ _ _).bind fun _ => (only_masked .hdmi _ _ _).bind fun _ =>
    Only.bind (.request trivial) fun _ => .request trivial
  exact clock.bind fun _ => lift_uncalled digital

theorem setDvi_uncalled (dvi : Bool) : Kept board uncalled (setDvi dvi) := by
  have signalled : Kept board uncalled (modify fun link => { link with dvi }) :=
    Action.Triple.change fun _ _ _ h => h
  exact signalled.bind fun _ => (lift_uncalled (only_masked .hdmi _ _ _)).bind fun _ =>
    store_uncalled .hdmi _ _

theorem enable_uncalled (p : Video.Preset) : Kept board uncalled (enable p) := by
  obtain ⟨generator, hgenerator⟩ := generator_ends p
  have prepared : Kept board uncalled (prepare p.timing) :=
    (Kept.require _).bind fun _ => (lift_uncalled (only_stores .hdmi _)).bind fun _ => .setPhase _
  have framed : Kept board uncalled (sendInfoframes p.videoCode p.timing .flat) :=
    sendInfoframes_takes (Kept.require _) (takes_uncalled .vendor) (takes_uncalled .video)
      (takes_uncalled .audio) (Kept.setPhase _) _ _ _
  have computed : Kept board uncalled (liftM (SyncGenerator.ofTiming p.timing)) :=
    .checked hgenerator fun _ _ _ h => h
  have looked : Kept board uncalled (liftM (Window.hdmi.load Register.control0)) :=
    lift_uncalled (.request trivial)
  refine prepared.bind fun _ => ?_
  refine framed.bind fun _ => ?_
  refine setUpAudio_uncalled.bind fun _ => ?_
  refine (lift_uncalled (only_masked .hdmi _ _ _)).bind fun _ => ?_
  refine (setDvi_uncalled false).bind fun _ => ?_
  refine looked.bind fun _ => ?_
  refine (store_uncalled .hdmi _ _).bind fun _ => ?_
  refine computed.bind fun _ => ?_
  exact (lift_uncalled (only_stores .displayTop _)).bind fun _ => .setPhase _

end

/-! ## The system bit -/

/-- A store that switches the link on. -/
def SetsSystem (x : WordStore) : Prop :=
  x.1 = .hdmi ∧ x.2.offset = 0x10000 ∧ x.2.value &&& 0x01 ≠ 0

instance : DecidablePred SetsSystem := fun _ => inferInstanceAs (Decidable (_ ∧ _ ∧ _))

theorem onHdmi_off {writes : List WordWrite} (h : ∀ x ∈ writes, ¬ x.offset = 0x10000) :
    (onHdmi writes).filter (SetsSystem ·) = [] := by
  refine List.filter_eq_nil_iff.mpr fun x hx => ?_
  obtain ⟨y, hy, rfl⟩ := List.mem_map.mp hx
  simp [SetsSystem, h y hy]

theorem onDisplayTop_off (writes : List WordWrite) :
    (onDisplayTop writes).filter (SetsSystem ·) = [] := by
  refine List.filter_eq_nil_iff.mpr fun x hx => ?_
  obtain ⟨y, -, rfl⟩ := List.mem_map.mp hx
  simp [SetsSystem]

theorem raster_off (t : Video.Timing) : (onHdmi (Raster.writes t)).filter (SetsSystem ·) = [] := by
  have split : onHdmi (Raster.writes t) =
      (.hdmi, ⟨0x10000, 0x10⟩) :: onHdmi (Raster.writes t).tail := rfl
  have first : ¬ SetsSystem (.hdmi, ⟨0x10000, 0x10⟩) := by decide
  rw [split, List.filter_cons_of_neg (by simpa using first), onHdmi_off (raster_tail t)]

/-- Enabling sets the bit once. -/
theorem enable_on (p : Video.Preset) (dvi : Bool) (others : UInt32) :
    (enableStores p dvi others).filter (SetsSystem ·) = [(.hdmi, ⟨0x10000, 0x15⟩)] := by
  have below : 0x10000 < packetBase := by decide
  have order : packetBase ≤ Register.digitalBase := by decide
  have signals : ∀ x ∈ signalWrites p dvi, ¬ x.offset = 0x10000 := by
    intro x hx same
    have := signal_block p dvi x hx
    omega
  have digital : ∀ x ∈ digitalWrites .pcm others, ¬ x.offset = 0x10000 := by
    intro x hx same
    have := digital_block .pcm others x hx
    omega
  have switched : (onHdmi switchWrites).filter (SetsSystem ·) =
      [(.hdmi, ⟨0x10000, 0x15⟩)] := by decide
  simp only [enableStores, List.filter_append, raster_off, onHdmi_off signals, onHdmi_off digital,
    switched, onDisplayTop_off, List.nil_append, List.append_nil]

/-! ## How each part ends -/

/-- Until the clock locks nothing is shown, and whether it locks is known from the looks. -/
theorem opening_ends (controller : UInt8) (p : Video.Preset) (m : WindowMemory) :
    ∃ found events m', (do opening controller p; Analog.awaitLock Analog.pollBudget).run board m =
        ⟨.ok found, events, m'⟩ ∧
      (found = true ↔ Locks m) ∧ ∀ e ∈ events, e.request.SparesPicture := by
  have unlooked : (opening controller p).Only Unlooked :=
    only_opening (fun _ => nofun) (fun _ _ => nofun) (fun _ _ _ => nofun) controller p
  have dark : (do opening controller p; Analog.awaitLock Analog.pollBudget).Only
      Request.SparesPicture :=
    (only_opening (fun _ => trivial) (fun _ _ => trivial)
      (fun _ value above => Request.analog_spares_picture above value) controller p).bind fun _ =>
      only_awaitLock nofun trivial _
  have opened : Program.Triple board (fun s _ => s = m) (opening controller p)
      fun _ s _ => s.statuses = m.statuses := by
    rintro s past rfl
    obtain ⟨x, outcome, -⟩ := unlooked.ends board s
    exact ⟨x, outcome, run_statuses unlooked s⟩
  have answered : Program.Triple board (fun s _ => s.statuses = m.statuses)
      (Analog.awaitLock Analog.pollBudget) fun found _ _ => found = true ↔ Locks m := by
    intro s past same
    obtain ⟨found, outcome, lock⟩ := awaitLock_answers Analog.pollBudget s
    rw [same] at lock
    exact ⟨found, outcome, lock⟩
  exact ((opened.bind fun _ => answered).both dark.all).ends ⟨rfl, nofun⟩

theorem layOut_ends (source : Source) (p : Video.Preset) (m : WindowMemory) :
    ∃ x events m', (layOut source p).run board m = ⟨.ok x, events, m'⟩ ∧
      (∃ sync, storesOf events = onDisplayTop sync ++ onHdmi (Raster.writes p.timing)) ∧
      ∀ e ∈ events, e.request.SparesController := by
  have fills : Fills m.words [] (layOut source p) _ :=
    (fills_log _ _).bind fun _ => (fills_store .displayTop _ _).bind fun _ =>
      (fills_storeAll .displayTop _).bind fun _ => fills_storeAll .hdmi _
  have spares : (layOut source p).Only Request.SparesController :=
    only_layOut (fun _ => trivial) (fun _ _ _ => trivial) source p
  obtain ⟨x, events, m', run, stored, spared⟩ :=
    (Program.Triple.both fills spares.all).ends ⟨⟨rfl, rfl⟩, nofun⟩
  exact ⟨x, events, m', run, ⟨_ :: SyncGenerator.stopped.writes, stored.2⟩, spared⟩

theorem enable_ends (p : Video.Preset) (dvi : Bool) (m : WindowMemory) :
    ∃ events m', ((enable p).exec ⟨.timingPrepared, dvi⟩).run board m =
        ⟨.ok (.ok (), ⟨.enabled, false⟩), events, m'⟩ ∧
      (storesOf events).filter (SetsSystem ·) = [(.hdmi, ⟨0x10000, 0x15⟩)] ∧
      ∀ e ∈ events, e.request.SparesController := by
  have carries : Carries m.words dvi false [] (enable p) (enableStores p dvi _) :=
    carries_enable p rfl
  have allowed : Phase.timingPrepared ∈ [.phyReady, .timingPrepared] := by decide
  obtain ⟨events, m', run, -, stores⟩ := carries.ends (enable_succeeds p allowed)
  have calls : ∀ e ∈ (((enable p).exec ⟨.timingPrepared, dvi⟩).run board m).events,
      e.request.SparesController := by
    obtain ⟨_, -, uncalled⟩ := (enable_uncalled p).either ⟨.timingPrepared, dvi⟩ m [] nofun
    exact uncalled
  rw [run] at calls
  refine ⟨events, m', run, ?_, calls⟩
  rw [stores]
  exact enable_on p dvi _

/-! ## The three ends -/

/-- A run of a full bring-up. -/
abbrev DisplayRun := Program.Run WindowMemory (Except LinkError Video.Resolution × Link)

def displayRun (controller preset : UInt8) (link : Link) (m : WindowMemory) : DisplayRun :=
  ((display controller preset).exec link).run board m

/-- Turned down with an error. Nothing is done but to log it. -/
structure TurnedDown (e : LinkError) (link : Link) (r : DisplayRun) : Prop where
  outcome : r.outcome = .ok (.error e, link)
  logs : ∀ x ∈ r.events, x.request.Logs

/-- No lock in time. The analogue part is switched off at the very end, and there was no picture. -/
structure GaveUp (link : Link) (r : DisplayRun) : Prop where
  outcome : r.outcome = .ok (.error .phyNotReady, { link with phase := .uninitialized })
  off : ∃ before, r.events =
    before ++ [⟨.store .hdmi 0x5007C 0, ()⟩, ⟨.store .hdmi 0x5007C 0, ()⟩]
  dark : ∀ x ∈ r.events, x.request.SparesPicture

/-- The picture is up. The display controller was called once, after the whole raster was stored
and before the only store of the system bit. -/
structure Displayed (controller : UInt8) (p : Video.Preset) (r : DisplayRun) : Prop where
  outcome : r.outcome = .ok (.ok (pictureOf p), ⟨.enabled, false⟩)
  called : ∃ before after feed, p.feed = .ok feed ∧
    r.events = before ++
      ⟨.showDisplay ⟨controller, pictureOf p, p.timing, feed⟩, ()⟩ :: after ∧
    (∀ x ∈ before ++ after, x.request.SparesController) ∧
    (∃ earlier, storesOf before = earlier ++ onHdmi (rasterWords p.timing)) ∧
    (storesOf before).filter (SetsSystem ·) = [] ∧
    (storesOf after).filter (SetsSystem ·) = [(.hdmi, ⟨0x10000, 0x15⟩)]

theorem turned_down_preset {preset : UInt8} (h : 2 < preset) (controller : UInt8) (link : Link)
    (m : WindowMemory) :
    TurnedDown (.unsupportedPreset preset) link (displayRun controller preset link m) := by
  rw [displayRun, display_exec_preset h]
  exact ⟨rfl, by simp [Request.Logs, Program.Run.andThen, Program.single]⟩

theorem turned_down_source {controller preset : UInt8} (supported : preset ≤ 2)
    (h : 2 < controller) (link : Link) (m : WindowMemory) :
    TurnedDown (.unsupportedSource controller) link (displayRun controller preset link m) := by
  rw [displayRun, display_exec_source supported h]
  exact ⟨rfl, by simp [Request.Logs, Program.Run.andThen, Program.single]⟩

theorem dark_off {events : List Event} (h : ∀ e ∈ events, e.request.SparesPicture) :
    (storesOf events).filter (SetsSystem ·) = [] := by
  refine List.filter_eq_nil_iff.mpr fun x hx => ?_
  obtain ⟨⟨request, answer⟩, he, hstore⟩ := List.mem_filterMap.mp hx
  have spared := h _ he
  cases request with
  | store w offset value =>
    obtain rfl := Option.some.inj hstore
    simp only [decide_eq_true_eq]
    exact fun sets => spared.2 ⟨sets.1, sets.2.1⟩
  | _ => cases hstore

theorem giveUp_ends (r : Except LinkError Video.Resolution × Link) (m : WindowMemory) :
    ∃ complaint m', (do giveUp; return r).run board m = ⟨.ok r, [⟨.log complaint, ()⟩,
      ⟨.store .hdmi 0x5007C 0, ()⟩, ⟨.store .hdmi 0x5007C 0, ()⟩], m'⟩ :=
  ⟨_, _, rfl⟩

/-- With a mode and a source that there are, all depends on the clock. -/
theorem gave_up_or_displayed {controller preset : UInt8} {source : Source} {p : Video.Preset}
    (hp : presetOfIndex preset = .ok p) (hsource : Source.ofIndex controller = .ok source)
    (link : Link) (m : WindowMemory) :
    (¬ Locks m → GaveUp link (displayRun controller preset link m)) ∧
    (Locks m → Displayed controller p (displayRun controller preset link m)) := by
  obtain ⟨feed, hfeed⟩ := feed_ends p
  obtain ⟨found, opened, m₁, hopen, lock, dark⟩ := opening_ends controller p m
  rw [displayRun, display_exec source p link hp hsource hfeed, ← bind_assoc, Program.run_bind,
    hopen, Program.Run.andThen_ok]
  cases found with
  | false =>
    have off : (Request.store .hdmi 0x5007C 0).SparesPicture :=
      Request.analog_spares_picture (by decide) 0
    obtain ⟨complaint, m₂, gone⟩ :=
      giveUp_ends (.error .phyNotReady, ⟨.uninitialized, link.dvi⟩) m₁
    rw [if_neg Bool.false_ne_true, gone]
    constructor
    · intro _
      refine ⟨rfl, ⟨opened ++ [⟨.log complaint, ()⟩], by simp⟩, ?_⟩
      simp only [List.forall_mem_append, List.forall_mem_cons]
      exact ⟨dark, trivial, off, off, nofun⟩
    · intro locks
      exact absurd (lock.mpr locks) Bool.false_ne_true
  | true =>
    obtain ⟨_, laid, m₂, hlay, ⟨sync, raster⟩, spared⟩ := layOut_ends source p m₁
    obtain ⟨enabled, m₃, henable, system, spared'⟩ := enable_ends p link.dvi m₂
    have quiet : ∀ e ∈ opened, e.request.SparesController :=
      fun e he => Request.spares_controller (dark e he)
    rw [if_pos rfl, Program.run_bind, hlay, Program.Run.andThen_ok, Program.run_bind,
      Program.run_showDisplay, Program.single, Program.Run.andThen_ok, Program.run_bind]
    dsimp only [board]
    rw [henable, Program.Run.andThen_ok]
    constructor
    · intro unlocked
      exact absurd (lock.mp rfl) unlocked
    · intro _
      rw [resolution_eq]
      refine ⟨rfl, opened ++ laid, enabled, feed, hfeed, by simp, ?_, ?_, ?_, system⟩
      · exact List.forall_mem_append.mpr ⟨List.forall_mem_append.mpr ⟨quiet, spared⟩, spared'⟩
      · refine ⟨storesOf opened ++ onDisplayTop sync, ?_⟩
        rw [storesOf_append, raster, raster_writes, List.append_assoc]
      · rw [storesOf_append, raster, List.filter_append, List.filter_append, dark_off dark,
          onDisplayTop_off, raster_off]
        rfl

/-- However a full bring-up ends, it ends in one of three ways. An unknown mode is turned down, and
then an unknown source, before anything is asked of the board. Otherwise the clock decides: unless
one of the first 500 looks finds it locked, the link gives up and forgets its progress; if one
does, the picture is up. No step is ever refused, wherever the link stood before. -/
theorem display_ends (controller preset : UInt8) (link : Link) (m : WindowMemory) :
    (2 < preset →
      TurnedDown (.unsupportedPreset preset) link (displayRun controller preset link m)) ∧
    (preset ≤ 2 → 2 < controller →
      TurnedDown (.unsupportedSource controller) link (displayRun controller preset link m)) ∧
    (preset ≤ 2 → controller ≤ 2 →
      (¬ Locks m → GaveUp link (displayRun controller preset link m)) ∧
      (Locks m → Displayed controller (modeOf preset) (displayRun controller preset link m))) ∧
    ∀ phase link', (displayRun controller preset link m).outcome ≠
      .ok (.error (.invalidState phase), link') := by
  have decided (hpreset : preset ≤ 2) (hcontroller : controller ≤ 2) :
      (¬ Locks m → GaveUp link (displayRun controller preset link m)) ∧
      (Locks m → Displayed controller (modeOf preset) (displayRun controller preset link m)) := by
    obtain ⟨source, hsource⟩ := sourceOfIndex_supported hcontroller
    exact gave_up_or_displayed (presetOfIndex_supported hpreset) hsource link m
  refine ⟨?_, ?_, decided, ?_⟩
  · intro h
    exact turned_down_preset h controller link m
  · intro hpreset h
    exact turned_down_source hpreset h link m
  · intro phase link' refused
    by_cases hpreset : preset ≤ 2
    · by_cases hcontroller : controller ≤ 2
      · obtain ⟨gaveUp, displayed⟩ := decided hpreset hcontroller
        by_cases lock : Locks m
        · rw [(displayed lock).outcome] at refused
          cases refused
        · rw [(gaveUp lock).outcome] at refused
          cases refused
      · rw [(turned_down_source hpreset (UInt8.not_le.mp hcontroller) link m).outcome] at refused
        cases refused
    · rw [(turned_down_preset (UInt8.not_le.mp hpreset) controller link m).outcome] at refused
      cases refused

/-- Windows of zeros, and a clock that never locks. -/
def darkWindows : WindowMemory := ⟨fun _ _ => 0, fun _ => 0⟩

theorem darkWindows_unlocked : ¬ Locks darkWindows := fun ⟨_, _, lock⟩ => lock UInt32.zero_and

/-- The first controller at full HD, from a new link: with a clock that has locked, and with one
that never does. -/
theorem full_hd_display_ends :
    (1 : UInt8) ≤ 2 ∧ (0 : UInt8) ≤ 2 ∧ Locks lockedWindows ∧ ¬ Locks darkWindows ∧
    Displayed 0 .fhd1080 (displayRun 0 1 .initial lockedWindows) ∧
    GaveUp .initial (displayRun 0 1 .initial darkWindows) := by
  obtain ⟨-, displayed⟩ :=
    (display_ends 0 1 .initial lockedWindows).2.2.1 (by decide) (by decide)
  obtain ⟨gaveUp, -⟩ := (display_ends 0 1 .initial darkWindows).2.2.1 (by decide) (by decide)
  exact ⟨by decide, by decide, lockedWindows_locks, darkWindows_unlocked,
    displayed lockedWindows_locks, gaveUp darkWindows_unlocked⟩

end Link

end Bringup
