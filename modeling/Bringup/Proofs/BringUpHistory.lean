import Bringup.Proofs.DisplayOutcome

/-! What a full bring-up comes to after different histories. All of its words are the same but those
of the packets and of clock recovery: these are set up before the link stops signalling DVI. -/
namespace Bringup.Link

open WindowMemory (board)

/-! ## What a history leaves -/

/-- The bits of the digital input's clock control that nobody has a use for. -/
def clockOthers (words : WindowWords) : UInt32 :=
  words .hdmi Register.digitalClock &&& ~~~DigitalAudio.clockOn

theorem run_spares {α : Type} {p : Program α} {offset : Nat}
    (h : p.Only (Request.Spares (· = offset))) (m : WindowMemory) :
    (p.run board m).board.words .hdmi offset = m.words .hdmi offset := by
  obtain ⟨-, -, spared⟩ := h.ends board m
  rw [WindowMemory.run_words]
  refine place_of_spared fun x hx same => ?_
  obtain ⟨⟨request, answer⟩, he, hstore⟩ := List.mem_filterMap.mp hx
  have := spared _ he
  cases request with
  | store w o value =>
    obtain rfl := Option.some.inj hstore
    obtain ⟨rfl, rfl⟩ := same
    exact this rfl
  | _ => cases hstore

theorem digitalAudio_words (codec : AudioCodec) (bits : UInt32) (m : WindowMemory) :
    ∃ x, ((DigitalAudio.setUp codec bits).run board m).outcome = .ok x ∧
      clockOthers ((DigitalAudio.setUp codec bits).run board m).board.words =
        clockOthers m.words := by
  have filled : Fills m.words [] (DigitalAudio.setUp codec bits)
      (onHdmi (digitalWrites codec (clockOthers m.words))) := fills_digitalAudio codec bits rfl
  obtain ⟨x, hx, hwords, -⟩ := filled m [] ⟨rfl, rfl⟩
  refine ⟨x, hx, ?_⟩
  rw [clockOthers, hwords]
  have same : (~~~DigitalAudio.clockOn) &&& DigitalAudio.clockOn = 0 := by decide
  exact masked_and same (m.words .hdmi Register.digitalClock) 0xFFFFFFFF

theorem clockOthers_spared {α : Type} {p : Program α}
    (h : p.Only (Request.Spares (· = Register.digitalClock))) (others : UInt32) :
    Program.Triple board (fun m _ => clockOthers m.words = others) p
      fun _ m _ => clockOthers m.words = others := by
  intro m past held
  obtain ⟨x, hx, -⟩ := h.ends board m
  refine ⟨x, hx, ?_⟩
  dsimp only
  rw [clockOthers, run_spares h]
  exact held

/-- Only the digital input's own set-up stores to its clock control. -/
theorem keeps_clockOthers (others : UInt32) :
    Keeps board (· = Register.digitalClock) fun m _ => clockOthers m.words = others where
  steady := ⟨fun h _ => clockOthers_spared h others, fun held _ => held⟩
  analog _ above same := absurd above (by subst same; decide)
  packets _ _ below same := absurd below (by subst same; decide)
  mode := by decide
  preamble := by decide
  raster t := clockOthers_spared (only_raster (fun _ below => Nat.ne_of_lt below) t) others
  digitalAudio codec bits m past held := by
    obtain ⟨x, hx, same⟩ := digitalAudio_words codec bits m
    exact ⟨x, hx, same.trans held⟩
  enableAudio on := clockOthers_spared (only_enableAudio (by decide) on) others

/-! ## Words after a full bring-up -/

section
variable {words : WindowWords} {source : Source} {p : Video.Preset} {dvi : Bool} {others : UInt32}

/-- The block of the packets and of clock recovery. -/
def InSignalBlock (w : Window) (offset : Nat) : Prop :=
  w = .hdmi ∧ packetBase ≤ offset ∧ offset < Register.digitalBase

/-- The stores of a full bring-up that do not depend on how the link signalled. -/
def commonStores (source : Source) (p : Video.Preset) (others : UInt32) : List WordStore :=
  setUpStores source p ++ (onHdmi (Raster.writes p.timing) ++ onHdmi (digitalWrites .pcm others) ++
    onHdmi switchWrites ++ onDisplayTop (generatorWrites p))

theorem signal_inside {x : WordStore} (h : x ∈ onHdmi (signalWrites p dvi)) :
    InSignalBlock x.1 x.2.offset := by
  obtain ⟨y, hy, rfl⟩ := List.mem_map.mp h
  exact ⟨rfl, signal_block p dvi y hy⟩

/-- Outside of the block only the common stores matter. -/
theorem place_outside {w : Window} {offset : Nat} (outside : ¬ InSignalBlock w offset) :
    place words (bringUpStores source p dvi others) w offset =
      place words (commonStores source p others) w offset := by
  have spared : ∀ x ∈ onHdmi (signalWrites p dvi), ¬ (w = x.1 ∧ offset = x.2.offset) := by
    rintro x hx ⟨rfl, rfl⟩
    exact outside (signal_inside hx)
  simp only [bringUpStores, enableStores, commonStores, place_append]
  exact place_congr (place_congr (place_congr (place_of_spared spared)))

theorem stored_outside {x : WordStore} (outside : ¬ InSignalBlock x.1 x.2.offset)
    (h : x ∈ bringUpStores source p dvi others) : x ∈ commonStores source p others := by
  have signal : x ∉ onHdmi (signalWrites p dvi) := fun hx => outside (signal_inside hx)
  simp only [bringUpStores, enableStores, List.mem_append, signal, or_false] at h
  simpa only [commonStores, List.mem_append] using h

/-- Inside of the block, the packets and clock recovery have the last word. -/
theorem place_inside {offset : Nat} (least : packetBase ≤ offset)
    (below : offset < Register.digitalBase) :
    place words (bringUpStores source p dvi others) .hdmi offset =
      place (place words (setUpStores source p ++ onHdmi (Raster.writes p.timing)))
        (onHdmi (signalWrites p dvi)) .hdmi offset := by
  have switches : ∀ x ∈ switchWrites, ¬ x.offset = offset := by
    have before : ∀ x ∈ switchWrites, x.offset < packetBase := by decide
    intro x hx same
    have := before x hx
    omega
  have digital : ∀ x ∈ digitalWrites .pcm others, ¬ x.offset = offset := by
    intro x hx same
    have := digital_block .pcm others x hx
    omega
  simp only [bringUpStores, enableStores, place_append]
  rw [place_onDisplayTop, place_onHdmi switches, place_onHdmi digital]

theorem signal_words :
    place words (bringUpStores source p dvi others) .hdmi Register.videoControl =
        (if dvi then Packet.never else Packet.everyFrame) ∧
      place words (bringUpStores source p dvi others) .hdmi Register.audioControl =
        (if dvi then Packet.never else Packet.everyFrame) ∧
      place words (bringUpStores source p dvi others) .hdmi Register.clockControl =
        (if dvi then clockOff else clockMeasured) := by
  refine ⟨?video, ?audio, ?clock⟩
  case video =>
    rw [place_inside (by decide) (by decide)]
    cases p <;> cases dvi <;> rfl
  case audio =>
    rw [place_inside (by decide) (by decide)]
    cases p <;> cases dvi <;> rfl
  case clock =>
    rw [place_inside (by decide) (by decide)]
    cases p <;> cases dvi <;> rfl

/-- Whichever way the link signals, the packet of the video mode is switched. -/
theorem video_stored :
    ∃ value, (Window.hdmi, ⟨Register.videoControl, value⟩) ∈ bringUpStores source p dvi others := by
  have switched :
      ∃ value, ⟨Register.videoControl, value⟩ ∈ packetWrites p.videoCode p.timing dvi := by
    cases dvi with
    | true => exact ⟨Packet.never, .tail _ (.head _)⟩
    | false => exact ⟨Packet.everyFrame, .tail _ (.head _)⟩
  obtain ⟨value, h⟩ := switched
  have signal : (Window.hdmi, ⟨Register.videoControl, value⟩) ∈ onHdmi (signalWrites p dvi) :=
    List.mem_map_of_mem (List.mem_append_left _ h)
  refine ⟨value, List.mem_append_right _ ?_⟩
  simp only [enableStores, List.mem_append]
  exact .inl (.inl (.inl (.inr signal)))

theorem mode_word :
    place words (bringUpStores source p dvi others) .hdmi Register.modeSelect = modeWord false := by
  simp only [bringUpStores, enableStores, place_append]
  rw [place_onDisplayTop]
  rfl

end

/-! ## Two histories -/

/-- A full bring-up that ends well, at the end of any history of a new driver over the same words.
The lock status may show anything on the way. -/
structure BringUp (words : WindowWords) (controller preset : UInt8) where
  history : List Operation
  statuses : Nat → UInt32
  /-- The driver at the end of its history. -/
  link : Link
  remembered : ((performAll history .initial).run board ⟨words, statuses⟩).outcome = .ok link
  screen : Video.Resolution
  final : Link
  succeeded : (((display controller preset).exec link).run board
    ((performAll history .initial).run board ⟨words, statuses⟩).board).outcome =
      .ok (.ok screen, final)

namespace BringUp

variable {words : WindowWords} {controller preset : UInt8}

/-- The windows at the end of the history. -/
def memory (b : BringUp words controller preset) : WindowMemory :=
  ((performAll b.history .initial).run board ⟨words, b.statuses⟩).board

/-- The final call. -/
def call (b : BringUp words controller preset) :
    Program.Run WindowMemory (Except LinkError Video.Resolution × Link) :=
  ((display controller preset).exec b.link).run board b.memory

/-- The final call stores to this word. -/
def Stores (b : BringUp words controller preset) (w : Window) (offset : Nat) : Prop :=
  ∃ value, (w, ⟨offset, value⟩) ∈ storesOf b.call.events

/-- What the word holds in the end. -/
def word (b : BringUp words controller preset) (w : Window) (offset : Nat) : UInt32 :=
  b.call.board.words w offset

/-- All words that either call stores to hold the same in the end. -/
def Agree (a b : BringUp words controller preset) : Prop :=
  ∀ w offset, a.Stores w offset ∨ b.Stores w offset → a.word w offset = b.word w offset

/-- Packets go out with every frame, and clock recovery is measured. -/
def Signals (b : BringUp words controller preset) : Prop :=
  b.word .hdmi Register.videoControl = Packet.everyFrame ∧
    b.word .hdmi Register.audioControl = Packet.everyFrame ∧
    b.word .hdmi Register.clockControl = clockMeasured

theorem others_kept (b : BringUp words controller preset) :
    clockOthers b.memory.words = clockOthers words := by
  have kept (op : Operation) : Kept board (fun m _ => clockOthers m.words = clockOthers words)
      op.perform := (keeps_clockOthers _).perform op fun _ => by decide
  obtain ⟨-, -, held⟩ := performAll_keeps kept b.history .initial ⟨words, b.statuses⟩ [] rfl
  exact held

/-- The stores of the final call are known but for how the link signalled before it. -/
theorem stores (b : BringUp words controller preset) :
    ∃ source p, Source.ofIndex controller = .ok source ∧ presetOfIndex preset = .ok p ∧
      Wrote b.memory.words (bringUpStores source p b.link.dvi (clockOthers words))
        b.call.board b.call.events := by
  obtain ⟨r, hr, h⟩ :=
    display_stores b.memory.words b.link.dvi controller preset b.link b.memory [] ⟨rfl, rfl, rfl⟩
  have same : r = (.ok b.screen, b.final) := by
    have := hr.symm.trans b.succeeded
    exact Except.ok.inj this
  subst same
  obtain ⟨source, p, hsource, hp, wrote⟩ := h
  refine ⟨source, p, hsource, hp, ?_⟩
  rw [← b.others_kept]
  exact wrote

/-- Two calls with the same arguments bring up the same thing. -/
theorem both (a b : BringUp words controller preset) :
    ∃ source p,
      Wrote a.memory.words (bringUpStores source p a.link.dvi (clockOthers words))
        a.call.board a.call.events ∧
      Wrote b.memory.words (bringUpStores source p b.link.dvi (clockOthers words))
        b.call.board b.call.events := by
  obtain ⟨source, p, hsource, hp, wrote⟩ := a.stores
  obtain ⟨source', p', hsource', hp', wrote'⟩ := b.stores
  obtain rfl := Except.ok.inj (hsource.symm.trans hsource')
  obtain rfl := Except.ok.inj (hp.symm.trans hp')
  exact ⟨source, p, wrote, wrote'⟩

theorem signals_iff (b : BringUp words controller preset) : b.Signals ↔ b.link.dvi = false := by
  obtain ⟨source, p, -, -, held, -⟩ := b.stores
  unfold Signals word
  rw [held, signal_words.1, signal_words.2.1, signal_words.2.2]
  cases b.link.dvi <;> decide

theorem mode_selected (b : BringUp words controller preset) :
    b.word .hdmi Register.modeSelect = modeWord false := by
  obtain ⟨source, p, -, -, held, -⟩ := b.stores
  rw [word, held]
  exact mode_word

theorem agree_iff (a b : BringUp words controller preset) :
    a.Agree b ↔ a.link.dvi = b.link.dvi := by
  obtain ⟨source, p, ⟨heldA, storedA⟩, ⟨heldB, storedB⟩⟩ := a.both b
  constructor
  · intro agree
    have stores : a.Stores .hdmi Register.videoControl := by
      rw [Stores, storedA]
      exact video_stored
    have same := agree _ _ (.inl stores)
    rw [word, word, heldA, heldB, signal_words.1, signal_words.1] at same
    revert same
    cases a.link.dvi <;> cases b.link.dvi <;> decide
  · intro signal w offset stores
    have all : storesOf a.call.events = storesOf b.call.events := by rw [storedA, storedB, signal]
    have stores' : ∃ value, (w, ⟨offset, value⟩) ∈ storesOf b.call.events :=
      stores.elim (fun h => all ▸ h) id
    rw [word, word, heldA, heldB, ← storedA, ← storedB, all]
    exact place_forgets stores'

/-- The signalling before the final call shows in one block only. -/
theorem agree_outside (a b : BringUp words controller preset) {w : Window} {offset : Nat}
    (outside : ¬ InSignalBlock w offset) (stores : a.Stores w offset ∨ b.Stores w offset) :
    a.word w offset = b.word w offset := by
  obtain ⟨source, p, ⟨heldA, storedA⟩, ⟨heldB, storedB⟩⟩ := a.both b
  rw [word, word, heldA, heldB, place_outside outside, place_outside outside]
  refine place_forgets ?_
  rcases stores with ⟨value, h⟩ | ⟨value, h⟩
  · exact ⟨value, stored_outside outside (storedA ▸ h)⟩
  · exact ⟨value, stored_outside outside (storedB ▸ h)⟩

end BringUp

/-- The same call after two histories: the words it stores to end the same exactly if both
histories left the same signalling. Outside of the packets and clock recovery they always do, and
the mode is HDMI; but a history that left DVI has them switched off all the same. -/
theorem bringUps_agree_iff (words : WindowWords) (controller preset : UInt8) :
    (∀ a b : BringUp words controller preset, a.Agree b ↔ a.link.dvi = b.link.dvi) ∧
    (∀ (a b : BringUp words controller preset) (w : Window) (offset : Nat),
      ¬ InSignalBlock w offset → a.Stores w offset ∨ b.Stores w offset →
        a.word w offset = b.word w offset) ∧
    ∀ b : BringUp words controller preset,
      b.word .hdmi Register.modeSelect = modeWord false ∧ (b.Signals ↔ b.link.dvi = false) :=
  ⟨BringUp.agree_iff, fun a b _ _ => a.agree_outside b, fun b => ⟨b.mode_selected, b.signals_iff⟩⟩

/-- Full HD from the first controller, after any history that leaves a clock that locks. -/
def BringUp.fullHd {m : WindowMemory} (history : List Operation) (link : Link)
    (remembered : ((performAll history .initial).run board m).outcome = .ok link)
    (lock : Locks ((performAll history .initial).run board m).board) : BringUp m.words 0 1 where
  history := history
  statuses := m.statuses
  link := link
  remembered := remembered
  screen := ⟨1920, 1080⟩
  final := ⟨.enabled, false⟩
  succeeded := by
    have known : presetOfIndex 1 = .ok .fhd1080 := rfl
    have wired : Source.ofIndex 0 = .ok _ := rfl
    obtain ⟨-, displayed⟩ := gave_up_or_displayed known wired link
      ((performAll history .initial).run board m).board
    exact (displayed lock).outcome

/-- A new driver brings the link up. -/
def BringUp.fresh : BringUp lockedWindows.words 0 1 := .fullHd [] .initial rfl lockedWindows_locks

/-- The link had been told to signal DVI before. -/
def BringUp.afterDvi : BringUp lockedWindows.words 0 1 :=
  .fullHd [.setDvi true] ⟨.uninitialized, true⟩ rfl lockedWindows_locks

/-- After DVI, the mode is HDMI again, as it is for a new driver. -/
theorem mode_agrees_after_dvi :
    (¬ InSignalBlock .hdmi Register.modeSelect ∧ BringUp.fresh.Stores .hdmi Register.modeSelect) ∧
      BringUp.fresh.word .hdmi Register.modeSelect =
        BringUp.afterDvi.word .hdmi Register.modeSelect := by
  have outside : ¬ InSignalBlock .hdmi Register.modeSelect := by
    intro inside
    exact absurd inside.2 (by decide)
  have stores : BringUp.fresh.Stores .hdmi Register.modeSelect := by
    obtain ⟨source, p, -, -, -, stored⟩ := BringUp.fresh.stores
    rw [BringUp.Stores, stored]
    have switched : ⟨Register.modeSelect, modeWord false⟩ ∈ switchWrites := .tail _ (.head _)
    exact ⟨_, List.mem_append_right _ (List.mem_append_left _ (List.mem_append_right _
      (List.mem_map_of_mem switched)))⟩
  exact ⟨⟨outside, stores⟩,
    (bringUps_agree_iff lockedWindows.words 0 1).2.1 _ .afterDvi _ _ outside (.inl stores)⟩

/-- The packets of a new driver go out, and those after DVI do not. -/
theorem packets_differ_after_dvi :
    BringUp.fresh.Signals ∧ ¬ BringUp.afterDvi.Signals ∧
      ¬ BringUp.fresh.Agree BringUp.afterDvi := by
  refine ⟨?sent, ?off, ?differ⟩
  case sent => exact (BringUp.signals_iff _).mpr rfl
  case off => exact fun h => absurd ((BringUp.signals_iff _).mp h) (by decide)
  case differ => exact fun h => absurd ((BringUp.agree_iff _ _).mp h) (by decide)

end Bringup.Link
