import Bringup.Proofs.LinkStores

/-! Steps of the link that keep an assertion because of where they store. What is said of the link
may stay away from some words of the transmitter; then every step that stores elsewhere keeps it. -/
namespace Bringup.Link

open Program (Only)

section
variable {σ : Type} {board : Program.Board σ} {bad : Nat → Prop} {α : Type}

/-- An assertion that a store can only break at the bad offsets, and that does not mind how the
link signals. -/
structure Steady (board : Program.Board σ) (bad : Nat → Prop) (inv : Link → Assertion σ) :
    Prop where
  keep {α : Type} {p : Program α} (h : p.Only (Request.Spares bad)) (link : Link) :
    Program.Triple board (inv link) p fun _ => inv link
  signal {link : Link} {s : σ} {past : List Event} (h : inv link s past) (dvi : Bool) :
    inv { link with dvi } s past

/-- Sent or switched off, the packet takes one assertion to the next, and that one does not mind
what is logged. -/
structure Packet.Takes (board : Program.Board σ) (fail : Link → Assertion σ) (p : Packet)
    (before after : Link → Assertion σ) : Prop where
  off : Action.Triple board fail before (liftM p.switchOff) fun _ => after
  send {f : Infoframe} (fits : f.length.toNat ≤ Infoframe.capacity) :
    Action.Triple board fail before (liftM (p.send f)) fun _ => after
  log (level : Log.Level) (text : String) :
    Action.Triple board fail after (liftM (Program.log level text)) fun _ => after

/-- Vendor information comes first, then the mode and the audio. DVI switches all three off. -/
theorem sendInfoframes_takes {fail pre start vendor video audio post : Link → Assertion σ}
    (allowed : Action.Triple board fail pre (require [.timingPrepared]) fun _ => start)
    (first : Packet.vendor.Takes board fail start vendor)
    (second : Packet.video.Takes board fail vendor video)
    (third : Packet.audio.Takes board fail video audio)
    (last : Action.Triple board fail audio (setPhase .infoframesSet) fun _ => post)
    (code : UInt8) (t : Video.Timing) (format : VideoFormat) :
    Action.Triple board fail pre (sendInfoframes code t format) fun _ => post := by
  have looked : Action.Triple board fail start get fun _ => start := .look fun _ _ _ h => h
  have rest : Action.Triple board fail vendor (do
      let videoCheck ← Packet.video.send (.video code t)
      Program.log .debug s!"HDMI: AVI checksum = 0x{Hex.byte videoCheck}"
      let audioCheck ← Packet.audio.send .audio
      Program.log .debug s!"HDMI: AUI checksum = 0x{Hex.byte audioCheck}"
      setPhase .infoframesSet) fun _ => post :=
    (second.send (video_fits code t)).bind fun _ => (second.log _ _).bind fun _ =>
      (third.send (by decide)).bind fun _ => (third.log _ _).bind fun _ => last
  refine allowed.bind fun _ => looked.bind fun link => ?_
  dsimp only
  split
  · exact first.off.bind fun _ => second.off.bind fun _ => third.off.bind fun _ => last
  · split
    · rename_i frame hframe
      exact (first.send (vendor_fits hframe)).bind fun _ => (first.log _ _).bind fun _ => rest
    · exact first.off.bind fun _ => rest

/-- Clock recovery keeps what its stores keep. -/
theorem setAudioClock_keeps {fail inv : Link → Assertion σ}
    (control : ∀ value, Action.Triple board fail inv
      (liftM (Window.hdmi.store Register.clockControl value)) fun _ => inv)
    (ratio : ∀ clock, Action.Triple board fail inv
      (liftM (Window.hdmi.storeAll (ratioWrites clock))) fun _ => inv)
    (log : ∀ level text, Action.Triple board fail inv
      (liftM (Program.log level text)) fun _ => inv)
    (rate : UInt32) : Action.Triple board fail inv (setAudioClock rate) fun _ => inv := by
  have clocked (clock : AudioClock) := (ratio clock).bind fun _ => control clockMeasured
  have looked : Action.Triple board fail inv get fun _ => inv := .look fun _ _ _ hinv => hinv
  refine looked.bind fun link => ?_
  split
  · exact control clockOff
  · dsimp only
    split
    · exact (log _ _).bind fun _ => clocked _
    · exact clocked _

namespace Steady

/-- An assertion about the trace alone only has to bear a longer trace. -/
theorem of_trace {P : Link → List Event → Prop}
    (append : ∀ link past more, P link past → (∀ e ∈ more, Request.Spares bad e.request) →
      P link (past ++ more))
    (signal : ∀ link past dvi, P link past → P { link with dvi } past) :
    Steady board bad fun link _ past => P link past where
  keep h link := by
    intro s past hP
    obtain ⟨x, hx, quiet⟩ := h.ends board s
    exact ⟨x, hx, append link past _ hP quiet⟩
  signal hP dvi := signal _ _ dvi hP

variable {fail inv : Link → Assertion σ} (steady : Steady board bad inv)
include steady

theorem lift {p : Program α} (h : p.Only (Request.Spares bad)) :
    Action.Triple board fail inv (liftM p) fun _ => inv :=
  .lift (steady.keep h)

theorem log (level : Log.Level) (text : String) :
    Action.Triple board fail inv (liftM (Program.log level text)) fun _ => inv :=
  steady.lift (only_log level text)

theorem selectSource (source : Source) :
    Action.Triple board fail inv (liftM (selectSource source)) fun _ => inv :=
  steady.lift (.request trivial)

theorem displayTop (writes : List WordWrite) :
    Action.Triple board fail inv (liftM (Window.displayTop.storeAll writes)) fun _ => inv :=
  steady.lift (only_displayTop writes)

theorem showDisplay (setup : DisplaySetup) :
    Action.Triple board fail inv (liftM (Program.showDisplay setup)) fun _ => inv :=
  steady.lift (.request trivial)

theorem setAudioClock
    (packets : ∀ offset, packetBase ≤ offset → offset < Register.digitalBase → ¬ bad offset)
    (rate : UInt32) : Action.Triple board fail inv (setAudioClock rate) fun _ => inv :=
  setAudioClock_keeps (fun value => steady.lift (only_clockControl packets value))
    (fun clock => steady.lift (only_ratioWrites packets clock)) steady.log rate

theorem setUpAudio
    (packets : ∀ offset, packetBase ≤ offset → offset < Register.digitalBase → ¬ bad offset)
    (digital : ∀ offset, Register.digitalBase ≤ offset → offset < Register.analogBase →
      ¬ bad offset) : Action.Triple board fail inv setUpAudio fun _ => inv :=
  (steady.setAudioClock packets _).bind fun _ => steady.lift (only_digitalAudio digital _ _)

theorem setDvi (mode : ¬ bad Register.modeSelect) (preamble : ¬ bad Register.control2)
    (dvi : Bool) : Action.Triple board fail inv (setDvi dvi) fun _ => inv := by
  have signalled : Action.Triple board fail inv (modify fun link => { link with dvi })
      fun _ => inv := .change fun _ _ _ hinv => steady.signal hinv dvi
  exact signalled.bind fun _ => (steady.lift (only_storeMasked mode _ _)).bind fun _ =>
    steady.lift (only_store preamble _)

theorem takes
    (packets : ∀ offset, packetBase ≤ offset → offset < Register.digitalBase → ¬ bad offset)
    {p : Packet} (placed : p.Placed) : p.Takes board fail inv inv where
  off := steady.lift (only_switchOff packets placed)
  send hf := steady.lift (only_send packets placed hf)
  log level text := steady.log level text

end Steady

/-- The operations that switch the link on. -/
def Operation.SwitchesOn : Operation → Prop
  | .enable _ => True
  | .display .. => True
  | _ => False

/-- The operations that come to the analogue part. -/
def Operation.ReachesAnalog : Operation → Prop
  | .loadAnalog _ => True
  | .disable => True
  | .awaitAnalog => True
  | .setUp .. => True
  | .display .. => True
  | _ => False

/-- What every operation keeps that stays away from the analogue part: an assertion that does not
mind stores to the packets and to the mode and preamble words, and that the other stores of the link
keep. -/
structure KeepsDigital (board : Program.Board σ) (bad : Nat → Prop) (inv : Assertion σ) : Prop where
  steady : Steady board bad fun _ => inv
  packets : ∀ offset, packetBase ≤ offset → offset < Register.digitalBase → ¬ bad offset
  mode : ¬ bad Register.modeSelect
  preamble : ¬ bad Register.control2
  raster (t : Video.Timing) :
    Program.Triple board inv (Window.hdmi.storeAll (Raster.writes t)) fun _ => inv
  digitalAudio (codec : AudioCodec) (bits : UInt32) :
    Program.Triple board inv (DigitalAudio.setUp codec bits) fun _ => inv
  enableAudio (on : Bool) : Program.Triple board inv (enableAudio on) fun _ => inv

/-- What the analogue part keeps. It is only ever loaded or switched off as a whole. -/
structure KeepsAnalog (board : Program.Board σ) (inv : Assertion σ) : Prop where
  load (p : Video.Preset) :
    Program.Triple board inv (Analog.store (Analog.loadWrites p)) fun _ => inv
  off : Program.Triple board inv (Analog.store Analog.switchOff) fun _ => inv

/-- What every operation keeps: the assertion does not mind single stores to the analogue part
either. -/
structure Keeps (board : Program.Board σ) (bad : Nat → Prop) (inv : Assertion σ) : Prop extends
    KeepsDigital board bad inv where
  analog : ∀ offset, Register.analogBase ≤ offset → ¬ bad offset

/-- The action keeps the assertion, whether or not it fails. -/
def Kept (board : Program.Board σ) (inv : Assertion σ) (a : Action α) : Prop :=
  Action.Triple board (fun _ => inv) (fun _ => inv) a fun _ _ => inv

namespace Kept

variable {inv : Assertion σ} {β : Type}

theorem pure (x : α) : Kept board inv (Pure.pure x : Action α) :=
  Action.Triple.pure fun _ _ _ hinv => hinv

theorem throw (e : LinkError) : Kept board inv (throw e : Action α) :=
  Action.Triple.throw fun _ _ _ hinv => hinv

theorem bind {a : Action α} {f : α → Action β} (first : Kept board inv a)
    (rest : ∀ x, Kept board inv (f x)) : Kept board inv (a >>= f) :=
  Action.Triple.bind first rest

theorem lift {p : Program α} (h : Program.Triple board inv p fun _ => inv) :
    Kept board inv (liftM p : Action α) :=
  Action.Triple.lift fun _ => h

theorem setPhase (phase : Phase) : Kept board inv (setPhase phase) :=
  Action.Triple.change fun _ _ _ hinv => hinv

theorem require (allowed : List Phase) : Kept board inv (require allowed) :=
  Action.Triple.require (fun _ _ _ hinv _ => hinv) fun _ _ _ hinv => hinv

theorem forM {xs : List α} {f : α → Action Unit} (h : ∀ x ∈ xs, Kept board inv (f x)) :
    Kept board inv (xs.forM f) := by
  induction xs with
  | nil => exact pure ()
  | cons x xs ih =>
    obtain ⟨hx, hxs⟩ := List.forall_mem_cons.mp h
    exact bind hx fun _ => ih hxs

end Kept

theorem generator_ends (p : Video.Preset) : ∃ g, SyncGenerator.ofTiming p.timing = .ok g := by
  cases p <;> exact ⟨_, rfl⟩

theorem feed_ends (p : Video.Preset) : ∃ feed, p.feed = .ok feed := by
  cases p <;> exact ⟨_, rfl⟩

namespace KeepsDigital

variable {inv : Assertion σ} (keeps : KeepsDigital board bad inv)
include keeps

theorem lift {p : Program α} (h : p.Only (Request.Spares bad)) :
    Kept board inv (liftM p : Action α) :=
  keeps.steady.lift h

theorem releaseResets : Kept board inv releaseResets := by
  have pulse (asserted : Bool) : Kept board inv
      (linkResets.forM fun line => liftM (Program.reset line asserted)) :=
    .forM fun _ _ => keeps.lift (.request trivial)
  exact (Kept.require _).bind fun _ => (pulse true).bind fun _ => (pulse false).bind fun _ =>
    .setPhase _

theorem prepare (t : Video.Timing) : Kept board inv (prepare t) :=
  (Kept.require _).bind fun _ => (Kept.lift (keeps.raster t)).bind fun _ => .setPhase _

theorem sendInfoframes (code : UInt8) (t : Video.Timing) (format : VideoFormat) :
    Kept board inv (sendInfoframes code t format) :=
  sendInfoframes_takes (Kept.require _) (keeps.steady.takes keeps.packets vendor_placed)
    (keeps.steady.takes keeps.packets video_placed) (keeps.steady.takes keeps.packets audio_placed)
    (Kept.setPhase _) code t format

theorem setUpAudio : Kept board inv setUpAudio :=
  Kept.bind (keeps.steady.setAudioClock keeps.packets _) fun _ => .lift (keeps.digitalAudio _ _)

theorem setDvi (dvi : Bool) : Kept board inv (setDvi dvi) :=
  keeps.steady.setDvi keeps.mode keeps.preamble dvi

theorem accept (complaint : String) (e : Except LinkError α) :
    Kept board inv (accept complaint e) := by
  cases e with
  | ok x => exact .pure x
  | error e => exact (keeps.lift (only_log _ _)).bind fun _ => .throw e

/-- Switching on stores to the first control word, so an assertion has to bear that. -/
theorem enable (control : ¬ bad Register.control0) (p : Video.Preset) :
    Kept board inv (enable p) := by
  obtain ⟨generator, hgenerator⟩ := generator_ends p
  have computed : Kept board inv (liftM (SyncGenerator.ofTiming p.timing)) :=
    .checked hgenerator fun _ _ _ hinv => hinv
  have looked : Kept board inv (liftM (Window.hdmi.load Register.control0)) :=
    keeps.lift (.request trivial)
  refine (keeps.prepare _).bind fun _ => ?_
  refine (keeps.sendInfoframes _ _ _).bind fun _ => ?_
  refine keeps.setUpAudio.bind fun _ => ?_
  refine (Kept.lift (keeps.enableAudio true)).bind fun _ => ?_
  refine (keeps.setDvi false).bind fun _ => ?_
  refine looked.bind fun _ => ?_
  refine (keeps.lift (only_store control _)).bind fun _ => ?_
  refine computed.bind fun _ => ?_
  refine (keeps.lift (only_displayTop _)).bind fun _ => ?_
  exact .setPhase _

section
variable (analog : KeepsAnalog board inv)
include analog

theorem loadAnalog (p : Video.Preset) : Kept board inv (loadAnalog p) :=
  (Kept.lift (analog.load p)).bind fun _ => (keeps.lift (only_log _ _)).bind fun _ => .setPhase _

omit keeps in
theorem disable : Kept board inv disable :=
  (Kept.lift analog.off).bind fun _ => .setPhase _

theorem awaitAnalog : Kept board inv awaitAnalog := by
  refine (Kept.require _).bind fun _ => ?_
  refine (keeps.lift (only_awaitLock trivial trivial _)).bind fun found => ?_
  split
  · exact (keeps.lift (only_log _ _)).bind fun _ => .setPhase _
  · exact (keeps.lift (only_log _ _)).bind fun _ => (disable analog).bind fun _ => .throw _

theorem setUp (source : Source) (p : Video.Preset) : Kept board inv (setUp source p) := by
  refine (keeps.loadAnalog analog p).bind fun _ => ?_
  refine keeps.releaseResets.bind fun _ => ?_
  refine (keeps.awaitAnalog analog).bind fun _ => ?_
  refine Kept.bind (keeps.steady.selectSource source) fun _ => ?_
  refine Kept.bind (keeps.steady.displayTop _) fun _ => ?_
  exact keeps.prepare p.timing

theorem display (control : ¬ bad Register.control0) (controller preset : UInt8) :
    Kept board inv (display controller preset) := by
  refine (keeps.lift (only_log _ _)).bind fun _ => ?_
  refine (keeps.accept _ _).bind fun mode => ?_
  refine (keeps.accept _ _).bind fun source => ?_
  refine (keeps.lift (only_log _ _)).bind fun _ => ?_
  refine (keeps.lift (only_pulse fun _ _ => trivial)).bind fun _ => ?_
  refine (keeps.setUp analog source mode).bind fun _ => ?_
  obtain ⟨feed, hfeed⟩ := feed_ends mode
  have computed : Kept board inv (liftM mode.feed) := .checked hfeed fun _ _ _ hinv => hinv
  refine computed.bind fun _ => ?_
  refine Kept.bind (keeps.steady.showDisplay _) fun _ => ?_
  exact (keeps.enable control mode).bind fun _ => .pure _

end

/-- Every operation keeps the assertion, if those that come to the analogue part may load it and
those that switch the link on may store that. -/
theorem perform (op : Operation) (analog : op.ReachesAnalog → KeepsAnalog board inv)
    (control : op.SwitchesOn → ¬ bad Register.control0) : Kept board inv op.perform := by
  have done {a : Action Unit} (h : Kept board inv a) :
      Kept board inv (a >>= fun _ => Pure.pure (none : Option Video.Resolution)) :=
    h.bind fun _ => .pure _
  cases op with
  | pulseCore => exact done (keeps.lift (only_pulse fun _ _ => trivial))
  | loadAnalog preset => exact done (keeps.loadAnalog (analog trivial) preset)
  | disable => exact done (disable (analog trivial))
  | releaseResets => exact done keeps.releaseResets
  | awaitAnalog => exact done (keeps.awaitAnalog (analog trivial))
  | selectSource source => exact done (keeps.lift (.request trivial))
  | prepare timing => exact done (keeps.prepare timing)
  | sendInfoframes code timing format => exact done (keeps.sendInfoframes code timing format)
  | setAudioClock rate => exact done (keeps.steady.setAudioClock keeps.packets rate)
  | setUpDigitalAudio codec bits => exact done (.lift (keeps.digitalAudio codec bits))
  | setUpAudio => exact done keeps.setUpAudio
  | enableAudio on => exact done (.lift (keeps.enableAudio on))
  | setDvi dvi => exact done (keeps.setDvi dvi)
  | setUp source preset => exact done (keeps.setUp (analog trivial) source preset)
  | enable preset => exact done (keeps.enable (control trivial) preset)
  | display controller preset =>
    exact (keeps.display (analog trivial) (control trivial) controller preset).bind fun _ =>
      .pure _

end KeepsDigital

namespace Keeps

variable {inv : Assertion σ} (keeps : Keeps board bad inv)
include keeps

theorem whole : KeepsAnalog board inv where
  load p := keeps.steady.keep (only_analog keeps.analog (analog_offsets p).1) .initial
  off := keeps.steady.keep (only_analog keeps.analog (analog_offsets .hd720).2) .initial

/-- Every operation keeps the assertion, if those that switch the link on may store that. -/
theorem perform (op : Operation) (control : op.SwitchesOn → ¬ bad Register.control0) :
    Kept board inv op.perform :=
  keeps.toKeepsDigital.perform op (fun _ => keeps.whole) control

end Keeps

end

/-- Operations one after another, whatever each of them comes to. -/
def performAll : List Operation → Link → Program Link
  | [], link => return link
  | op :: ops, link => do
      let (_, link) ← op.perform.exec link
      performAll ops link

/-- What every operation keeps, however it ends, any history of operations keeps. -/
theorem performAll_keeps {σ : Type} {board : Program.Board σ} {inv : Link → Assertion σ}
    (step : ∀ op : Operation, Action.Triple board inv inv op.perform fun _ => inv)
    (ops : List Operation) (link : Link) :
    Program.Triple board (inv link) (performAll ops link) inv := by
  induction ops generalizing link with
  | nil => exact .pure fun _ _ hinv => hinv
  | cons op ops ih => exact ((step op).either link).bind fun r => ih r.2

end Bringup.Link
