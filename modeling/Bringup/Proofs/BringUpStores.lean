import Bringup.Proofs.BringUpOrder

/-! Every store of a full bring-up, in order. The words it reads on the way are words it has just
stored, all but one: the digital input's clock control. -/
namespace Bringup.Link

open WindowMemory (board)

/-! ## The stores of each step -/

def onHdmi (writes : List WordWrite) : List WordStore := writes.map (.hdmi, ·)

def onDisplayTop (writes : List WordWrite) : List WordStore := writes.map (.displayTop, ·)

def setUpStores (source : Source) (p : Video.Preset) : List WordStore :=
  onHdmi (Analog.doubled (Analog.loadWrites p)) ++
  onDisplayTop (⟨Register.sourceMux, 0x80000000 ||| (source.index.toUInt32 &&& 0x3)⟩ ::
    SyncGenerator.stopped.writes) ++
  onHdmi (Raster.writes p.timing)

/-- All registers of a packet that carries a frame. -/
def Packet.frame (p : Packet) (f : Infoframe) : List WordWrite :=
  ⟨p.control, everyFrame⟩ :: p.fill f f.sum

/-- The packets' registers, for a flat picture. DVI has all packets off, and nothing else is stored
then. -/
def packetWrites (code : UInt8) (t : Video.Timing) (dvi : Bool) : List WordWrite :=
  if dvi then
    [⟨Packet.vendor.control, Packet.never⟩, ⟨Packet.video.control, Packet.never⟩,
      ⟨Packet.audio.control, Packet.never⟩]
  else
    ⟨Packet.vendor.control, Packet.never⟩ ::
      (Packet.video.frame (.video code t) ++ Packet.audio.frame .audio)

/-- Vendor information, or its packet switched off. -/
def vendorWrites (format : VideoFormat) : List WordWrite :=
  match Infoframe.vendor format with
  | some f => Packet.vendor.frame f
  | none => [⟨Packet.vendor.control, Packet.never⟩]

/-- The packets' registers, for a picture of any format. -/
def infoframeWrites (code : UInt8) (t : Video.Timing) (format : VideoFormat) (dvi : Bool) :
    List WordWrite :=
  if dvi then packetWrites code t true
  else vendorWrites format ++ (Packet.video.frame (.video code t) ++ Packet.audio.frame .audio)

def clockWrites (rate : UInt32) (dvi : Bool) : List WordWrite :=
  if dvi then [⟨Register.clockControl, clockOff⟩]
  else ratioWrites (.ofRate rate) ++ [⟨Register.clockControl, clockMeasured⟩]

/-- All that depends on how the link signals. -/
def signalWrites (p : Video.Preset) (dvi : Bool) : List WordWrite :=
  packetWrites p.videoCode p.timing dvi ++ clockWrites defaultSampleRate dvi

/-- The digital input, given the bits of its clock control that it has to leave alone. -/
def digitalWrites (codec : AudioCodec) (others : UInt32) : List WordWrite :=
  DigitalAudio.receiverWrites ++ DigitalAudio.userWrites codec.repetition ++
  DigitalAudio.routeWrites ++ [
    ⟨Register.digitalClock, others⟩,
    ⟨Register.digitalClock, others ||| DigitalAudio.clockOn⟩,
    ⟨Register.digitalOperation, DigitalAudio.checkStatus⟩,
    ⟨Register.digitalOperation, DigitalAudio.checkStatusThenSend⟩]

/-- Audio on, HDMI signalling, link on. -/
def switchWrites : List WordWrite := [
  ⟨Register.control0, 0x14⟩,
  ⟨Register.modeSelect, modeWord false⟩,
  ⟨Register.control2, preambleWord false⟩,
  ⟨Register.control0, 0x15⟩]

def generatorWrites (p : Video.Preset) : List WordWrite :=
  match SyncGenerator.ofTiming p.timing with
  | .ok generator => generator.writes
  | .error _ => []

def enableStores (p : Video.Preset) (dvi : Bool) (others : UInt32) : List WordStore :=
  onHdmi (Raster.writes p.timing) ++ onHdmi (signalWrites p dvi) ++
  onHdmi (digitalWrites .pcm others) ++ onHdmi switchWrites ++ onDisplayTop (generatorWrites p)

def bringUpStores (source : Source) (p : Video.Preset) (dvi : Bool) (others : UInt32) :
    List WordStore :=
  setUpStores source p ++ enableStores p dvi others

/-! ## Programs that store -/

/-- The stores so far, and what they have made of the words there were at first. -/
def Wrote (words : WindowWords) (done : List WordStore) : Assertion WindowMemory :=
  fun m past => m.words = place words done ∧ storesOf past = done

/-- After the stores so far, the program carries out some more. -/
def Fills (words : WindowWords) (done : List WordStore) {α : Type} (p : Program α)
    (more : List WordStore) : Prop :=
  Program.Triple board (Wrote words done) p fun _ => Wrote words (done ++ more)

/-- Not a store. -/
def StoresNothing : Request → Prop
  | .store .. => False
  | _ => True

section
variable {words : WindowWords} {done more more' : List WordStore} {α β : Type}

theorem Fills.bind {p : Program α} {f : α → Program β} (first : Fills words done p more)
    (rest : ∀ x, Fills words (done ++ more) (f x) more') :
    Fills words done (p >>= f) (more ++ more') := by
  unfold Fills
  rw [← List.append_assoc]
  exact Program.Triple.bind first rest

theorem Fills.of_eq {p : Program α} (h : Fills words done p more) (same : more = more') :
    Fills words done p more' :=
  same ▸ h

theorem Fills.pure (x : α) : Fills words done (Pure.pure x) [] :=
  Program.Triple.pure fun _ _ h => by rwa [List.append_nil]

theorem fills_store (w : Window) (offset : Nat) (value : UInt32) :
    Fills words done (w.store offset value) [(w, ⟨offset, value⟩)] := by
  refine .ask fun m past ⟨hwords, hpast⟩ => ⟨?_, ?_⟩
  · rw [place_append, ← hwords]
    rfl
  · rw [storesOf_append, hpast]
    rfl

theorem fills_storeAll (w : Window) (writes : List WordWrite) :
    Fills words done (w.storeAll writes) (writes.map (w, ·)) := by
  induction writes generalizing done with
  | nil => exact Fills.pure ()
  | cons x writes ih => exact (fills_store w x.offset x.value).bind fun _ => ih

theorem fills_nothing {p : Program α} (h : p.Only StoresNothing) : Fills words done p [] := by
  intro m past ⟨hwords, hpast⟩
  obtain ⟨x, hx, quiet⟩ := h.ends board m
  have none : storesOf (p.run board m).events = [] := by
    refine List.filterMap_eq_nil_iff.mpr fun e he => ?_
    obtain ⟨request, answer⟩ := e
    have := quiet _ he
    cases request with
    | store => exact absurd this id
    | _ => rfl
  refine ⟨x, hx, ?_, ?_⟩
  · rw [WindowMemory.run_words, none, List.append_nil, hwords]
    rfl
  · rw [storesOf_append, none, hpast]

theorem fills_log (level : Log.Level) (text : String) :
    Fills words done (Program.log level text) [] :=
  fills_nothing (.request trivial)

/-- What a load shows is known from the stores so far. -/
theorem load_wrote {w : Window} {offset : Nat}
    (plain : ¬ (w = .hdmi ∧ offset = Register.analogStatus)) {word : UInt32}
    (held : place words done w offset = word) :
    Program.Triple board (Wrote words done) (w.load offset)
      fun shown m past => shown = word ∧ Wrote words done m past := by
  refine .ask fun m past ⟨hwords, hpast⟩ => ?_
  have shown : board m (.load w offset) = (word, m) := by
    rw [← held, ← hwords]
    exact m.look_plain plain
  rw [shown]
  refine ⟨rfl, hwords, ?_⟩
  rw [storesOf_append, hpast]
  exact List.append_nil done

theorem fills_storeMasked {w : Window} {offset : Nat}
    (plain : ¬ (w = .hdmi ∧ offset = Register.analogStatus)) {word value mask stored : UInt32}
    (held : place words done w offset = word)
    (becomes : (word &&& ~~~mask) ||| (value &&& mask) = stored) :
    Fills words done (w.storeMasked offset value mask) [(w, ⟨offset, stored⟩)] := by
  refine Program.Triple.bind (load_wrote plain held) fun shown => .of_fact fun same => ?_
  subst same becomes
  exact fills_store w offset _

end

/-! ## Words that were just stored -/

section
variable {words : WindowWords} {done : List WordStore}

theorem place_onHdmi {writes : List WordWrite} {offset : Nat}
    (h : ∀ x ∈ writes, ¬ x.offset = offset) :
    place words (onHdmi writes) .hdmi offset = words .hdmi offset := by
  refine place_of_spared fun x hx same => ?_
  obtain ⟨y, hy, rfl⟩ := List.mem_map.mp hx
  exact h y hy same.2.symm

/-- Where no word is stored to twice, each holds what was stored to it. -/
theorem place_onHdmi_mem {writes : List WordWrite} (once : (writes.map (·.offset)).Nodup)
    {x : WordWrite} (hx : x ∈ writes) :
    place words (onHdmi writes) .hdmi x.offset = x.value := by
  induction writes generalizing words with
  | nil => exact absurd hx List.not_mem_nil
  | cons y writes ih =>
    obtain ⟨fresh, once⟩ := List.nodup_cons.mp once
    change place (place words [(.hdmi, y)]) (onHdmi writes) .hdmi x.offset = x.value
    rcases List.mem_cons.mp hx with rfl | hx
    · rw [place_onHdmi fun z hz same => fresh (List.mem_map.mpr ⟨z, hz, same⟩)]
      exact if_pos ⟨rfl, rfl⟩
    · exact ih once hx

theorem place_onDisplayTop (writes : List WordWrite) (offset : Nat) :
    place words (onDisplayTop writes) .hdmi offset = words .hdmi offset := by
  refine place_of_spared fun x hx same => ?_
  obtain ⟨y, -, rfl⟩ := List.mem_map.mp hx
  cases same.1

/-- The packets and clock recovery lie in one block. -/
theorem signal_block (p : Video.Preset) (dvi : Bool) :
    ∀ x ∈ signalWrites p dvi, packetBase ≤ x.offset ∧ x.offset < Register.digitalBase := by
  cases p <;> cases dvi <;> decide +kernel

theorem digital_block (codec : AudioCodec) (others : UInt32) :
    ∀ x ∈ digitalWrites codec others, Register.digitalBase ≤ x.offset := by
  have block : ∀ o ∈ (digitalWrites .pcm 0).map (·.offset), Register.digitalBase ≤ o := by decide
  exact forall_offset block rfl

theorem raster_words (words : WindowWords) (t : Video.Timing) :
    place words (onHdmi (Raster.writes t)) .hdmi Register.control0 = 0x10 ∧
      place words (onHdmi (Raster.writes t)) .hdmi Register.modeSelect = 0x02 := by
  constructor
  · rfl
  · rfl

/-- The clock is stopped and started by one bit; the others come back as they were. -/
theorem fills_digitalAudio (codec : AudioCodec) (bits : UInt32) {others : UInt32}
    (held : place words done .hdmi Register.digitalClock &&& ~~~DigitalAudio.clockOn = others) :
    Fills words done (DigitalAudio.setUp codec bits) (onHdmi (digitalWrites codec others)) := by
  have stopped : (place words done .hdmi Register.digitalClock &&& ~~~DigitalAudio.clockOn) |||
      (0 &&& DigitalAudio.clockOn) = others := by
    rw [held, UInt32.zero_and, UInt32.or_zero]
  have kept : others &&& ~~~DigitalAudio.clockOn = others := by
    rw [← held, UInt32.and_assoc, UInt32.and_self]
  have started : (others &&& ~~~DigitalAudio.clockOn) ||| (0xFFFFFFFF &&& DigitalAudio.clockOn) =
      others ||| DigitalAudio.clockOn := by
    rw [kept]
    rfl
  -- Nothing before the clock control is stored to it.
  let before := done ++ onHdmi DigitalAudio.receiverWrites ++ [] ++
    onHdmi (DigitalAudio.userWrites codec.repetition) ++ onHdmi DigitalAudio.routeWrites
  have untouched : place words before .hdmi Register.digitalClock =
      place words done .hdmi Register.digitalClock := by
    have offsets : ∀ o ∈ (DigitalAudio.userWrites 0).map (·.offset),
        ¬ o = Register.digitalClock := by decide
    have users : ∀ x ∈ DigitalAudio.userWrites codec.repetition,
        ¬ x.offset = Register.digitalClock := forall_offset offsets rfl
    simp only [before, List.append_nil, place_append]
    rw [place_onHdmi (by decide), place_onHdmi users, place_onHdmi (by decide)]
  have last : place words (before ++ [(.hdmi, ⟨Register.digitalClock, others⟩)]) .hdmi
      Register.digitalClock = others := by
    rw [place_append]
    rfl
  exact (fills_storeAll .hdmi DigitalAudio.receiverWrites).bind fun _ =>
    (fills_log _ _).bind fun _ =>
    (fills_storeAll .hdmi (DigitalAudio.userWrites codec.repetition)).bind fun _ =>
    (fills_storeAll .hdmi DigitalAudio.routeWrites).bind fun _ =>
    (fills_storeMasked (by decide) untouched stopped).bind fun _ =>
    (fills_storeMasked (by decide) last started).bind fun _ =>
    (fills_store .hdmi _ _).bind fun _ => fills_store .hdmi _ _

end

/-! ## Actions that store -/

/-- The stores so far, and how the link signals. -/
def wrote (words : WindowWords) (dvi : Bool) (done : List WordStore) :
    Link → Assertion WindowMemory :=
  fun link m past => link.dvi = dvi ∧ Wrote words done m past

/-- A program minds what is stored, and leaves the signalling alone. -/
theorem lift_wrote {words : WindowWords} {dvi : Bool} {done : List WordStore} {α : Type}
    {p : Program α} {post : α → Assertion WindowMemory}
    (h : Program.Triple board (Wrote words done) p post) :
    Action.Triple board (fun _ _ _ => True) (wrote words dvi done) (liftM p)
      fun x link m past => link.dvi = dvi ∧ post x m past :=
  .lift fun _ => .of_fact fun signal =>
    h.conseq (fun _ _ h => h) fun _ _ _ hpost => ⟨signal, hpost⟩

/-- After the stores so far, the action carries out some more, unless it fails. The link signals
in one way before and maybe in another way after. -/
def Carries (words : WindowWords) (dvi dvi' : Bool) (done : List WordStore) {α : Type}
    (a : Action α) (more : List WordStore) : Prop :=
  Action.Triple board (fun _ _ _ => True) (wrote words dvi done) a
    fun _ => wrote words dvi' (done ++ more)

section
variable {words : WindowWords} {dvi dvi' dvi'' : Bool} {done more more' : List WordStore}
  {α β : Type}

namespace Carries

theorem of_eq {a : Action α} (h : Carries words dvi dvi' done a more) (same : more = more') :
    Carries words dvi dvi' done a more' :=
  same ▸ h

theorem bind {a : Action α} {f : α → Action β} (first : Carries words dvi dvi' done a more)
    (rest : ∀ x, Carries words dvi' dvi'' (done ++ more) (f x) more') :
    Carries words dvi dvi'' done (a >>= f) (more ++ more') := by
  unfold Carries
  rw [← List.append_assoc]
  exact Action.Triple.bind first rest

/-- A first part that stores nothing. -/
theorem aside {a : Action α} {f : α → Action β} (first : Carries words dvi dvi' done a [])
    (rest : ∀ x, Carries words dvi' dvi'' done (f x) more) :
    Carries words dvi dvi'' done (a >>= f) more := by
  refine (first.bind fun x => ?_).of_eq (List.nil_append more)
  rw [List.append_nil]
  exact rest x

theorem pure (x : α) : Carries words dvi dvi done (Pure.pure x) [] := by
  unfold Carries
  rw [List.append_nil]
  exact Action.Triple.pure fun _ _ _ h => h

theorem lift {p : Program α} (h : Fills words done p more) :
    Carries words dvi dvi done (liftM p) more :=
  lift_wrote h

theorem setPhase (phase : Phase) : Carries words dvi dvi done (setPhase phase) [] := by
  unfold Carries
  rw [List.append_nil]
  exact .change fun _ _ _ h => h

theorem require (allowed : List Phase) : Carries words dvi dvi done (require allowed) [] := by
  unfold Carries
  rw [List.append_nil]
  exact .require (fun _ _ _ h _ => h) fun _ _ _ _ => trivial

/-- A choice by how the link signals. -/
theorem get {f : Link → Action α}
    (h : ∀ link, link.dvi = dvi → Carries words dvi dvi' done (f link) more) :
    Carries words dvi dvi' done (MonadState.get >>= f) more := by
  have looked : Action.Triple board (fun _ _ _ => True) (wrote words dvi done)
      MonadState.get fun link link' m past => link.dvi = dvi ∧ wrote words dvi done link' m past :=
    .look fun _ _ _ h => ⟨h.1, h⟩
  exact looked.bind fun link => .of_fact (h link)

theorem checked {c : Checked α} {x : α} (hc : c = .ok x) {f : α → Action β}
    (h : Carries words dvi dvi' done (f x) more) :
    Carries words dvi dvi' done ((liftM c : Action α) >>= f) more := by
  have computed : Action.Triple board (fun _ _ _ => True) (wrote words dvi done)
      (liftM c : Action α) fun y link m past => y = x ∧ wrote words dvi done link m past :=
    .checked hc fun _ _ _ h => ⟨rfl, h⟩
  exact computed.bind fun y => .of_fact fun same => same ▸ h

/-- A load that shows a known word. -/
theorem load {w : Window} {offset : Nat} (plain : ¬ (w = .hdmi ∧ offset = Register.analogStatus))
    {word : UInt32} (held : place words done w offset = word) {f : UInt32 → Action α}
    (h : Carries words dvi dvi' done (f word) more) :
    Carries words dvi dvi' done ((liftM (w.load offset) : Action UInt32) >>= f) more := by
  have shown : Action.Triple board (fun _ _ _ => True) (wrote words dvi done)
      (liftM (w.load offset)) fun shown link m past =>
        shown = word ∧ wrote words dvi done link m past :=
    (lift_wrote (load_wrote plain held)).conseq (fun _ _ _ h => h)
      fun _ _ _ _ ⟨signal, same, h⟩ => ⟨same, signal, h⟩
  exact shown.bind fun shown => .of_fact fun same => same ▸ h

/-- An action that cannot fail carries out all its stores. -/
theorem ends {a : Action Unit} {m : WindowMemory} (h : Carries m.words dvi dvi' [] a more)
    {phase phase' : Phase}
    (succeeds : Action.Triple board never (inPhase phase) a fun _ => inPhase phase') :
    ∃ events m', (a.exec ⟨phase, dvi⟩).run board m =
        ⟨.ok (.ok (), ⟨phase', dvi'⟩), events, m'⟩ ∧
      m'.words = place m.words more ∧ storesOf events = more := by
  obtain ⟨⟨result, link⟩, events, m', run, ended, stored⟩ :=
    ((succeeds ⟨phase, dvi⟩).both (h ⟨phase, dvi⟩)).ends (s := m) ⟨rfl, rfl, rfl, rfl⟩
  cases result with
  | error e => exact absurd ended id
  | ok _ =>
    obtain ⟨signal, words, stores⟩ := stored
    obtain rfl : link = ⟨phase', dvi'⟩ := by
      cases link
      exact congr (congrArg Link.mk ended) signal
    exact ⟨events, m', run, words, stores⟩

end Carries

theorem carries_log (level : Log.Level) (text : String) :
    Carries words dvi dvi done (liftM (Program.log level text)) [] :=
  .lift (fills_log level text)

/-! ## The steps of bring-up -/

theorem carries_loadAnalog (p : Video.Preset) :
    Carries words dvi dvi done (loadAnalog p) (onHdmi (Analog.doubled (Analog.loadWrites p))) :=
  ((Carries.lift (fills_storeAll .hdmi _)).bind fun _ => (carries_log _ _).aside fun _ =>
    .setPhase _).of_eq (List.append_nil _)

theorem carries_resets (asserted : Bool) :
    Carries words dvi dvi done
      (linkResets.forM fun line => liftM (Program.reset line asserted)) [] := by
  have resets : Fills words done (linkResets.forM fun line => Program.reset line asserted) [] :=
    fills_nothing (.forM fun _ _ => .request trivial)
  intro link
  rw [Action.exec_forM_lift]
  refine .map _ (.of_fact fun signal => ?_)
  exact Program.Triple.conseq resets (fun _ _ h => h) fun _ _ _ h => ⟨signal, h⟩

theorem carries_releaseResets : Carries words dvi dvi done releaseResets [] :=
  (Carries.require _).aside fun _ => (carries_resets true).aside fun _ =>
    (carries_resets false).aside fun _ => .setPhase _

/-- Without a lock the action fails, and what it has stored by then does not matter. -/
theorem carries_awaitAnalog : Carries words dvi dvi done awaitAnalog [] := by
  have waited : Fills words done (Analog.awaitLock Analog.pollBudget) [] :=
    fills_nothing (only_awaitLock trivial trivial _)
  refine (Carries.require _).aside fun _ => (Carries.lift waited).aside fun found => ?_
  split
  · exact (carries_log _ _).aside fun _ => .setPhase _
  · refine (carries_log _ _).aside fun _ => ?_
    have off : Carries words dvi dvi done disable (onHdmi (Analog.doubled Analog.switchOff)) :=
      ((Carries.lift (fills_storeAll .hdmi _)).bind fun _ => .setPhase _).of_eq (List.append_nil _)
    exact Action.Triple.bind off fun _ => .throw fun _ _ _ _ => trivial

theorem carries_prepare (t : Video.Timing) :
    Carries words dvi dvi done (prepare t) (onHdmi (Raster.writes t)) :=
  (Carries.require _).aside fun _ => ((Carries.lift (fills_storeAll .hdmi _)).bind fun _ =>
    .setPhase _).of_eq (List.append_nil _)

/-- Once the clock has locked, all of the raster is stored, and nothing else. -/
theorem prepare_stored (t : Video.Timing) (link : Link)
    (allowed : link.phase ∈ [.phyReady, .timingPrepared]) (m : WindowMemory) :
    ∃ events m', ((prepare t).exec link).run board m =
        ⟨.ok (.ok (), ⟨.timingPrepared, link.dvi⟩), events, m'⟩ ∧
      m'.words = place m.words (onHdmi (Raster.writes t)) ∧
      storesOf events = onHdmi (Raster.writes t) := by
  have carries : Carries m.words link.dvi link.dvi [] (prepare t) (onHdmi (Raster.writes t)) :=
    carries_prepare t
  exact carries.ends (prepare_succeeds t allowed)

theorem carries_setUp (source : Source) (p : Video.Preset) :
    Carries words dvi dvi done (setUp source p) (setUpStores source p) := by
  refine ((carries_loadAnalog p).bind fun _ => carries_releaseResets.aside fun _ =>
    carries_awaitAnalog.aside fun _ => (Carries.lift (fills_store .displayTop _ _)).bind fun _ =>
    (Carries.lift (fills_storeAll .displayTop _)).bind fun _ => carries_prepare p.timing).of_eq ?_
  simp only [setUpStores, onDisplayTop, List.map_cons, List.append_assoc, List.cons_append,
    List.nil_append]

/-! ## Switching on -/

theorem fills_send (p : Packet) {f : Infoframe} (h : f.length.toNat ≤ Infoframe.capacity) :
    Fills words done (p.send f)
      (onHdmi (p.frame f)) := by
  rw [send_eq p h]
  exact ((fills_store .hdmi _ _).bind fun _ => (fills_storeAll .hdmi _).bind fun _ =>
    Fills.pure _).of_eq (by rw [List.append_nil]; rfl)

theorem carries_sendInfoframes (code : UInt8) (t : Video.Timing) (format : VideoFormat) :
    Carries words dvi dvi done (sendInfoframes code t format)
      (onHdmi (infoframeWrites code t format dvi)) := by
  have off (p : Packet) {done : List WordStore} : Carries words dvi dvi done (liftM p.switchOff)
      [(.hdmi, ⟨p.control, Packet.never⟩)] := .lift (fills_store .hdmi _ _)
  have rest {done : List WordStore} : Carries words dvi dvi done (do
      let videoCheck ← Packet.video.send (.video code t)
      Program.log .debug s!"HDMI: AVI checksum = 0x{Hex.byte videoCheck}"
      let audioCheck ← Packet.audio.send .audio
      Program.log .debug s!"HDMI: AUI checksum = 0x{Hex.byte audioCheck}"
      Link.setPhase .infoframesSet)
      (onHdmi (Packet.video.frame (.video code t) ++ Packet.audio.frame .audio)) := by
    refine ((Carries.lift (fills_send .video (video_fits code t))).bind fun _ =>
      (carries_log _ _).aside fun _ =>
      (Carries.lift (fills_send .audio (f := .audio) (by decide))).bind fun _ =>
      (carries_log _ _).aside fun _ => .setPhase _).of_eq ?_
    simp only [onHdmi, List.map_append, List.append_nil]
  refine (Carries.require _).aside fun _ => Carries.get fun link signal => ?_
  dsimp only
  rw [signal]
  cases dvi with
  | true =>
    exact (off _).bind fun _ => (off _).bind fun _ => (off _).bind fun _ => .setPhase _
  | false =>
    have writes : onHdmi (infoframeWrites code t format false) = onHdmi (vendorWrites format) ++
        onHdmi (Packet.video.frame (.video code t) ++ Packet.audio.frame .audio) := List.map_append
    rw [writes, if_neg Bool.false_ne_true]
    split
    · rename_i frame hframe
      have vendor : vendorWrites format = Packet.vendor.frame frame := by rw [vendorWrites, hframe]
      rw [vendor]
      exact (Carries.lift (fills_send .vendor (vendor_fits hframe))).bind fun _ =>
        (carries_log _ _).aside fun _ => rest
    · rename_i hframe
      have vendor : vendorWrites format = [⟨Packet.vendor.control, Packet.never⟩] := by
        rw [vendorWrites, hframe]
      rw [vendor]
      exact (off .vendor).bind fun _ => rest

theorem carries_setAudioClock (rate : UInt32) :
    Carries words dvi dvi done (setAudioClock rate) (onHdmi (clockWrites rate dvi)) := by
  refine Carries.get fun link signal => ?_
  rw [signal]
  cases dvi with
  | true => exact .lift (fills_store .hdmi _ _)
  | false =>
    have clocked : Carries words false false done (do
        Window.hdmi.storeAll (ratioWrites (.ofRate rate))
        Window.hdmi.store Register.clockControl clockMeasured)
        (onHdmi (clockWrites rate false)) :=
      (Carries.lift (fills_storeAll .hdmi _)).bind fun _ => .lift (fills_store .hdmi _ _)
    rw [if_neg Bool.false_ne_true]
    dsimp only
    split
    · exact (carries_log _ _).aside fun _ => clocked
    · exact clocked

theorem carries_setDvi {word : UInt32} (held : place words done .hdmi Register.modeSelect = word)
    (dvi' : Bool) : Carries words dvi dvi' done (setDvi dvi')
      (onHdmi [⟨Register.modeSelect, (word &&& ~~~0x3) ||| (modeWord dvi' &&& 0x3)⟩,
        ⟨Register.control2, preambleWord dvi'⟩]) := by
  have signalled : Carries words dvi dvi' done (modify fun link => ⟨link.phase, dvi'⟩) [] := by
    unfold Carries
    rw [List.append_nil]
    exact .change fun _ _ _ h => ⟨rfl, h.2⟩
  exact signalled.aside fun _ => (Carries.lift (fills_storeMasked (by decide) held rfl)).bind
    fun _ => .lift (fills_store .hdmi _ _)

theorem carries_setUpAudio {others : UInt32}
    (held : place words (done ++ onHdmi (clockWrites defaultSampleRate dvi)) .hdmi
      Register.digitalClock &&& ~~~DigitalAudio.clockOn = others) :
    Carries words dvi dvi done setUpAudio (onHdmi (clockWrites defaultSampleRate dvi) ++
      onHdmi (digitalWrites .pcm others)) :=
  (carries_setAudioClock _).bind fun _ => .lift (fills_digitalAudio .pcm _ held)

/-- What depends on the signalling leaves alone all words outside of one block. -/
theorem place_signals (p : Video.Preset) (dvi : Bool) {offset : Nat}
    (h : offset < packetBase ∨ Register.digitalBase ≤ offset) :
    place words (onHdmi (packetWrites p.videoCode p.timing dvi) ++
      onHdmi (clockWrites defaultSampleRate dvi)) .hdmi offset = words .hdmi offset := by
  have outside : ∀ x ∈ signalWrites p dvi, ¬ x.offset = offset := by
    intro x hx same
    have := signal_block p dvi x hx
    omega
  rw [place_append, place_onHdmi fun x hx => outside x (List.mem_append_right _ hx),
    place_onHdmi fun x hx => outside x (List.mem_append_left _ hx)]

/-- The control words are as the raster left them when audio has been set up. -/
theorem place_sounds (p : Video.Preset) (dvi : Bool) (others : UInt32) {offset : Nat}
    (h : offset < packetBase) :
    place words (onHdmi (packetWrites p.videoCode p.timing dvi) ++
      (onHdmi (clockWrites defaultSampleRate dvi) ++ onHdmi (digitalWrites .pcm others)))
      .hdmi offset = words .hdmi offset := by
  have order : packetBase ≤ Register.digitalBase := by decide
  have outside : ∀ x ∈ digitalWrites .pcm others, ¬ x.offset = offset := by
    intro x hx same
    have := digital_block .pcm others x hx
    omega
  rw [← List.append_assoc, place_append, place_onHdmi outside, place_signals p dvi (.inl h)]

/-- The end of it, once the control word has audio on. -/
theorem carries_start (p : Video.Preset)
    (held : place words done .hdmi Register.control0 = 0x14) :
    Carries words dvi dvi done (do
        let control ← Window.hdmi.load Register.control0
        Window.hdmi.store Register.control0 (control ||| systemBit)
        let generator ← (SyncGenerator.ofTiming p.timing : Checked _)
        Window.displayTop.storeAll generator.writes
        Link.setPhase .enabled)
      (onHdmi [⟨Register.control0, 0x15⟩] ++ onDisplayTop (generatorWrites p)) := by
  obtain ⟨generator, hgenerator⟩ := generator_ends p
  have writes : generatorWrites p = generator.writes := by rw [generatorWrites, hgenerator]
  rw [writes]
  refine Carries.load (by decide) held ?_
  refine (Carries.lift (fills_store .hdmi _ _)).bind fun _ => Carries.checked hgenerator ?_
  exact ((Carries.lift (fills_storeAll .displayTop _)).bind fun _ => Carries.setPhase _).of_eq
    (List.append_nil _)

theorem carries_enable (p : Video.Preset) {others : UInt32}
    (held : place words done .hdmi Register.digitalClock &&& ~~~DigitalAudio.clockOn = others) :
    Carries words dvi false done (enable p) (enableStores p dvi others) := by
  let raster := done ++ onHdmi (Raster.writes p.timing)
  let packets := onHdmi (packetWrites p.videoCode p.timing dvi)
  let sounds := onHdmi (clockWrites defaultSampleRate dvi) ++ onHdmi (digitalWrites .pcm others)
  let audible := [(Window.hdmi, (⟨Register.control0, 0x14⟩ : WordWrite))]
  let mode := onHdmi
    [⟨Register.modeSelect, modeWord false⟩, ⟨Register.control2, preambleWord false⟩]
  obtain ⟨control, signalling⟩ := raster_words (place words done) p.timing
  have clock : place words (raster ++ packets ++ onHdmi (clockWrites defaultSampleRate dvi))
      .hdmi Register.digitalClock &&& ~~~DigitalAudio.clockOn = others := by
    have below : ∀ x ∈ Raster.writes p.timing, ¬ x.offset = Register.digitalClock :=
      fun x hx => Nat.ne_of_lt (raster_offsets p.timing x hx)
    rw [List.append_assoc, place_append, place_signals p dvi (by decide), place_append,
      place_onHdmi below, held]
  have quiet : place words (raster ++ packets ++ sounds) .hdmi Register.control0 = 0x10 := by
    rw [List.append_assoc, place_append, place_sounds p dvi others (by decide), place_append]
    exact control
  have hdmi : place words (raster ++ packets ++ sounds ++ audible) .hdmi Register.modeSelect =
      0x02 := by
    rw [place_append, List.append_assoc, place_append]
    refine (place_sounds p dvi others (by decide)).trans ?_
    rw [place_append]
    exact signalling
  have heard : place words (raster ++ packets ++ sounds ++ audible ++ mode) .hdmi
      Register.control0 = 0x14 := by
    rw [place_append, place_append]
    rfl
  have packets {done : List WordStore} : Carries words dvi dvi done
      (sendInfoframes p.videoCode p.timing .flat)
      (onHdmi (packetWrites p.videoCode p.timing dvi)) := carries_sendInfoframes _ _ .flat
  refine ((carries_prepare p.timing).bind fun _ => packets.bind fun _ =>
    (carries_setUpAudio clock).bind fun _ =>
    (Carries.lift (fills_storeMasked (by decide) quiet rfl)).bind fun _ =>
    (carries_setDvi hdmi false).bind fun _ => carries_start p heard).of_eq ?_
  simp only [enableStores, onHdmi, signalWrites, List.map_append, List.append_assoc]
  rfl

/-! ## A full bring-up -/

/-- Before the link is enabled, the digital input is left alone. -/
theorem place_setUp (source : Source) (p : Video.Preset) :
    place words (setUpStores source p) .hdmi Register.digitalClock =
      words .hdmi Register.digitalClock := by
  have above : ∀ x ∈ Analog.doubled (Analog.loadWrites p), ¬ x.offset = Register.digitalClock := by
    intro x hx same
    have := (analog_offsets p).1 x hx
    rw [same] at this
    exact absurd this (by decide)
  have below : ∀ x ∈ Raster.writes p.timing, ¬ x.offset = Register.digitalClock :=
    fun x hx => Nat.ne_of_lt (raster_offsets p.timing x hx)
  rw [setUpStores, place_append, place_append, place_onHdmi below, place_onDisplayTop,
    place_onHdmi above]

theorem carries_bringUp (controller : UInt8) (source : Source) (p : Video.Preset) :
    Carries words dvi false [] (do
        pulseCore
        setUp source p
        let feed ← (p.feed : Checked _)
        Program.showDisplay { controller, screen := p.resolution, timing := p.timing, feed }
        enable p
        return p.resolution)
      (bringUpStores source p dvi
        (words .hdmi Register.digitalClock &&& ~~~DigitalAudio.clockOn)) := by
  obtain ⟨feed, hfeed⟩ := feed_ends p
  have pulsed : Fills words [] pulseCore [] := fills_nothing (only_pulse fun _ _ => trivial)
  have shown (setup : DisplaySetup) {done : List WordStore} :
      Fills words done (Program.showDisplay setup) [] := fills_nothing (.request trivial)
  have clock : place words ([] ++ setUpStores source p) .hdmi Register.digitalClock &&&
      ~~~DigitalAudio.clockOn = words .hdmi Register.digitalClock &&& ~~~DigitalAudio.clockOn := by
    rw [List.nil_append, place_setUp]
  exact (Carries.lift pulsed).aside fun _ => (carries_setUp source p).bind fun _ =>
    Carries.checked hfeed <| (Carries.lift (shown _)).aside fun _ =>
    ((carries_enable p clock).bind fun _ => .pure _).of_eq (List.append_nil _)

/-- A value that is not accepted ends the action. -/
theorem accept_wrote (complaint : String) (e : Except LinkError α) :
    Action.Triple board (fun _ _ _ => True) (wrote words dvi done) (accept complaint e)
      fun x link m past => e = .ok x ∧ wrote words dvi done link m past := by
  cases e with
  | ok x => exact .pure fun _ _ _ h => ⟨rfl, h⟩
  | error e =>
    exact Action.Triple.bind (carries_log .error complaint) fun _ => .throw fun _ _ _ _ => trivial

/-- A full bring-up that ends well has carried out these stores, and no others. -/
theorem display_stores (words : WindowWords) (dvi : Bool) (controller preset : UInt8) :
    Action.Triple board (fun _ _ _ => True) (wrote words dvi []) (display controller preset)
      fun _ _ m past => ∃ source p, Source.ofIndex controller = .ok source ∧
        presetOfIndex preset = .ok p ∧ Wrote words (bringUpStores source p dvi
          (words .hdmi Register.digitalClock &&& ~~~DigitalAudio.clockOn)) m past := by
  refine Action.Triple.bind (carries_log _ _) fun _ => (accept_wrote _ _).bind fun p =>
    .of_fact fun hp => (accept_wrote _ _).bind fun source => .of_fact fun hsource => ?_
  exact Action.Triple.conseq ((carries_log _ _).aside fun _ => carries_bringUp controller source p)
    (fun _ _ _ h => h) fun _ _ _ _ h => ⟨source, p, hsource, hp, h.2⟩

end

end Bringup.Link
