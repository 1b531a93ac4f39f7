import Bringup.Proofs.BringUpWords
import Bringup.Proofs.LinkStores

/-! What has to lie behind a link that has come so far: since the analogue part was last loaded,
the trace holds the milestones of bring-up in order. -/
namespace Bringup.Link

def storeEvent (w : Window) (x : WordWrite) : Event := ⟨.store w x.offset x.value, ()⟩

def resetEvent (line : ResetLine) (asserted : Bool) : Event := ⟨.reset line asserted, ()⟩

/-- Something that a stretch of a trace shows. -/
abbrev Milestone := List Event → Prop

namespace Milestone

/-- The resets of video, digital audio and signalling asserted, then all three released. -/
def pulsed : Milestone := fun stretch =>
  stretch = [resetEvent .hdmiVideo true, resetEvent .hdmiSpdif true, resetEvent .hdmiTmds true,
    resetEvent .hdmiVideo false, resetEvent .hdmiSpdif false, resetEvent .hdmiTmds false]

/-- A look at the analogue part that found its clock locked. -/
def locked : Milestone := fun stretch =>
  ∃ status : UInt32, stretch = [⟨.load .hdmi 0x00020, status⟩] ∧ status &&& 0x01 ≠ 0

/-- All words of the raster of some timing. -/
def prepared : Milestone := fun stretch =>
  ∃ t, stretch = (rasterWords t).map (storeEvent .hdmi)

def stored (offset : Nat) : Milestone := fun stretch =>
  ∃ value, stretch = [storeEvent .hdmi ⟨offset, value⟩]

/-- The first control word stored with the system bit. -/
def switchedOn : Milestone := fun stretch =>
  ∃ value, stretch = [storeEvent .hdmi ⟨0x10000, value⟩] ∧ value &&& 0x01 ≠ 0

end Milestone

open Milestone

/-- What a phase says has happened since the analogue part was loaded. The last words stored before
the link is on are the controls of the vendor's, the video and the audio packet. -/
def Phase.milestones : Phase → List Milestone
  | .uninitialized => []
  | .phyConfigured => []
  | .resetReleased => [pulsed]
  | .phyReady => [pulsed, locked]
  | .timingPrepared => [pulsed, locked, prepared]
  | .infoframesSet =>
      [pulsed, locked, prepared, stored 0x10A00, stored 0x10700, stored 0x10800]
  | .enabled =>
      [pulsed, locked, prepared, stored 0x10A00, stored 0x10700, stored 0x10800, switchedOn]

/-- The trace holds the milestones, each after the one before. -/
def InOrder : List Milestone → List Event → Prop
  | [], _ => True
  | m :: ms, events => ∃ before stretch rest,
      events = before ++ stretch ++ rest ∧ m stretch ∧ InOrder ms rest

/-- Every store that loads the analogue part. -/
def loadEvents (p : Video.Preset) : List Event := (clockWords p).map (storeEvent .hdmi)

/-- Not a store to the analogue part. -/
def offAnalog : Request → Prop := Request.Spares (0x50000 ≤ ·)

/-- The milestones since the analogue part was last loaded. Nothing was stored to it afterwards. -/
def Since (ms : List Milestone) (past : List Event) : Prop :=
  ∃ before p rest, past = before ++ loadEvents p ++ rest ∧ (∀ e ∈ rest, offAnalog e.request) ∧
    InOrder ms rest

/-- The phase claims no more than the trace shows. -/
def Justified (phase : Phase) (past : List Event) : Prop :=
  phase = .uninitialized ∨ Since phase.milestones past

/-! ## Traces that grow -/

theorem InOrder.append {ms : List Milestone} {events : List Event} (h : InOrder ms events)
    (more : List Event) : InOrder ms (events ++ more) := by
  induction ms generalizing events with
  | nil => trivial
  | cons m ms ih =>
    obtain ⟨before, stretch, rest, rfl, hm, hrest⟩ := h
    exact ⟨before, stretch, rest ++ more, by simp, hm, ih hrest⟩

theorem InOrder.reach {ms : List Milestone} {events stretch : List Event} {m : Milestone}
    (h : InOrder ms events) (hm : m stretch) : InOrder (ms ++ [m]) (events ++ stretch) := by
  induction ms generalizing events with
  | nil => exact ⟨events, stretch, [], by simp, hm, trivial⟩
  | cons m' ms ih =>
    obtain ⟨before, stretch', rest, rfl, hm', hrest⟩ := h
    exact ⟨before, stretch', rest ++ stretch, by simp, hm', ih hrest⟩

theorem InOrder.left {ms ms' : List Milestone} {events : List Event}
    (h : InOrder (ms ++ ms') events) : InOrder ms events := by
  induction ms generalizing events with
  | nil => trivial
  | cons m ms ih =>
    obtain ⟨before, stretch, rest, rfl, hm, hrest⟩ := h
    exact ⟨before, stretch, rest, rfl, hm, ih hrest⟩

theorem Since.left {ms ms' : List Milestone} {past : List Event} (h : Since (ms ++ ms') past) :
    Since ms past := by
  obtain ⟨before, p, rest, hpast, quiet, order⟩ := h
  exact ⟨before, p, rest, hpast, quiet, order.left⟩

theorem Since.append {ms : List Milestone} {past : List Event} (h : Since ms past)
    {more : List Event} (quiet : ∀ e ∈ more, offAnalog e.request) : Since ms (past ++ more) := by
  obtain ⟨before, p, rest, rfl, quiet', order⟩ := h
  exact ⟨before, p, rest ++ more, by simp,
    List.forall_mem_append.mpr ⟨quiet', quiet⟩, order.append more⟩

theorem Since.reach {ms : List Milestone} {past stretch : List Event} {m : Milestone}
    (h : Since ms past) (quiet : ∀ e ∈ stretch, offAnalog e.request) (hm : m stretch) :
    Since (ms ++ [m]) (past ++ stretch) := by
  obtain ⟨before, p, rest, rfl, quiet', order⟩ := h
  exact ⟨before, p, rest ++ stretch, by simp,
    List.forall_mem_append.mpr ⟨quiet', quiet⟩, order.reach hm⟩

/-! ## What programs leave in the trace -/

section
variable {σ : Type} {board : Program.Board σ} {ms : List Milestone}

theorem run_storeAll (board : Program.Board σ) (w : Window) (writes : List WordWrite) (s : σ) :
    ((w.storeAll writes).run board s).outcome = .ok () ∧
      ((w.storeAll writes).run board s).events = writes.map (storeEvent w) := by
  induction writes generalizing s with
  | nil => exact ⟨rfl, rfl⟩
  | cons x writes ih =>
    obtain ⟨outcome, events⟩ := ih (board s (.store w x.offset x.value)).2
    constructor
    · exact outcome
    · exact congrArg (storeEvent w x :: ·) events

theorem run_resets (board : Program.Board σ) (lines : List ResetLine) (asserted : Bool) (s : σ) :
    ((lines.forM fun line => Program.reset line asserted).run board s).outcome = .ok () ∧
      ((lines.forM fun line => Program.reset line asserted).run board s).events =
        lines.map (resetEvent · asserted) := by
  induction lines generalizing s with
  | nil => exact ⟨rfl, rfl⟩
  | cons line lines ih =>
    obtain ⟨outcome, events⟩ := ih (board s (.reset line asserted)).2
    constructor
    · exact outcome
    · exact congrArg (resetEvent line asserted :: ·) events

/-- A program that stores nothing to the analogue part takes no progress away. -/
theorem aside {α : Type} {p : Program α} (h : p.Only offAnalog) :
    Program.Triple board (fun _ past => Since ms past) p fun _ _ past => Since ms past := by
  intro s past since
  obtain ⟨x, hx, quiet⟩ := h.ends board s
  exact ⟨x, hx, since.append quiet⟩

/-- A program that leaves one stretch and nothing else. -/
theorem reaches {α : Type} {p : Program α} {x : α} {stretch : List Event} {m : Milestone}
    (h : ∀ s, (p.run board s).outcome = .ok x ∧ (p.run board s).events = stretch)
    (quiet : ∀ e ∈ stretch, offAnalog e.request) (hm : m stretch) :
    Program.Triple board (fun _ past => Since ms past) p
      fun _ _ past => Since (ms ++ [m]) past := by
  intro s past since
  obtain ⟨hx, hevents⟩ := h s
  refine ⟨x, hx, ?_⟩
  rw [hevents]
  exact since.reach quiet hm

/-- A store outside of the analogue part is one milestone of its own. -/
theorem reaches_store {offset : Nat} (h : ¬ Register.analogBase ≤ offset) (value : UInt32)
    {m : Milestone} (hm : m [storeEvent .hdmi ⟨offset, value⟩]) :
    Program.Triple board (fun _ past => Since ms past) (Window.hdmi.store offset value)
      fun _ _ past => Since (ms ++ [m]) past :=
  reaches (x := ()) (fun _ => ⟨rfl, rfl⟩) (fun e he => by
    obtain rfl := List.mem_singleton.mp he
    exact h) hm

theorem awaitLock_reaches (budget : Nat) :
    Program.Triple board (fun _ past => Since ms past) (Analog.awaitLock budget)
      fun found _ past => if found then Since (ms ++ [locked]) past else Since ms past := by
  induction budget with
  | zero => exact .pure fun _ _ since => since
  | succ budget ih =>
    -- A look that finds the lock is the milestone itself; another is only more of the trace.
    have look : Program.Triple board (fun _ past => Since ms past)
        (Window.hdmi.load Register.analogStatus) fun status _ past =>
          if status &&& Analog.lockBit ≠ 0 then Since (ms ++ [locked]) past else Since ms past := by
      refine .ask fun s past since => ?_
      split
      · rename_i lock
        exact since.reach (by simp [offAnalog, Request.Spares]) ⟨_, rfl, lock⟩
      · exact since.append (by simp [offAnalog, Request.Spares])
    refine look.bind fun status => ?_
    split
    · exact .pure fun _ _ since => since
    · refine Program.Triple.bind (aside (.request trivial)) fun _ => ih

end

end Bringup.Link
