import Bringup.Proofs.Footprint

/-! Passes on a bus that may fail at any transfer. A pass goes through all of its groups, and a
group whose own transfers all go through leaves its fields as they would be had nothing failed. -/
namespace Bringup

open Bench (MemoryChip RegisterFile)
open Bench.RegisterFile (AgreeOn)

/-- The transfers of a run, in order, each with what came of it. -/
def Program.Run.transfers {σ α : Type} (r : Program.Run σ α) : List Event :=
  r.events.filter Event.isTransfer

namespace Chip

open Footprint (Covers)

/-! ## Groups one after another -/

/-- The run of a single group. -/
abbrev GroupRun := Program.Run MemoryChip (Except ChipError Outcome)

/-- The runs of groups, each on the chip that the one before leaves behind. -/
def groupRuns : List Group → MemoryChip → List GroupRun
  | [], _ => []
  | g :: gs, m => m.run g.action :: groupRuns gs (m.run g.action).board

def afterGroups : List Group → MemoryChip → MemoryChip
  | [], m => m
  | g :: gs, m => afterGroups gs (m.run g.action).board

@[simp]
theorem afterGroups_nil (m : MemoryChip) : afterGroups [] m = m := rfl

theorem groupRuns_append (gs hs : List Group) (m : MemoryChip) :
    groupRuns (gs ++ hs) m = groupRuns gs m ++ groupRuns hs (afterGroups gs m) := by
  induction gs generalizing m with
  | nil => rfl
  | cons g gs ih => exact congrArg (m.run g.action :: ·) (ih _)

theorem afterGroups_append (gs hs : List Group) (m : MemoryChip) :
    afterGroups (gs ++ hs) m = afterGroups hs (afterGroups gs m) := by
  induction gs generalizing m with
  | nil => rfl
  | cons g gs ih => exact ih _

theorem afterGroups_reliable (gs : List Group) {m : MemoryChip} (h : m = m.reliable) :
    afterGroups gs m = (afterGroups gs m).reliable := by
  induction gs generalizing m with
  | nil => exact h
  | cons g gs ih => exact ih (Program.board_reliable _ h)

/-- The program comes to an end, and what it does to the chip is the groups, all of them and in
order. -/
structure GoesThrough {α : Type} (p : Program α) (gs : List Group) (m : MemoryChip) : Prop where
  ends : ∃ x, (p.run MemoryChip.board m).outcome = .ok x
  board : (p.run MemoryChip.board m).board = afterGroups gs m
  transfers : (p.run MemoryChip.board m).transfers =
    (groupRuns gs m).flatMap Program.Run.transfers

namespace GoesThrough

variable {α β : Type} {gs hs : List Group} {m : MemoryChip}

theorem of_quiet {p : Program α} {x : α} {events : List Event}
    (h : p.run MemoryChip.board m = ⟨.ok x, events, m⟩)
    (quiet : ∀ e ∈ events, e.isTransfer = false) : GoesThrough p [] m where
  ends := ⟨x, by rw [h]⟩
  board := by rw [h]; rfl
  transfers := by
    rw [h]
    exact List.filter_eq_nil_iff.mpr fun e he => by simp [quiet e he]

theorem pure (x : α) (m : MemoryChip) : GoesThrough (Pure.pure x : Program α) [] m :=
  of_quiet rfl fun _ he => absurd he List.not_mem_nil

theorem bind {p : Program α} {f : α → Program β} (first : GoesThrough p gs m)
    (rest : ∀ x, (p.run MemoryChip.board m).outcome = .ok x →
      GoesThrough (f x) hs (afterGroups gs m)) : GoesThrough (p >>= f) (gs ++ hs) m := by
  obtain ⟨x, hx⟩ := first.ends
  obtain ⟨ends, board, transfers⟩ := rest x hx
  have hrun := Program.Run.andThen_of_ok hx fun x s => (f x).run MemoryChip.board s
  rw [← Program.run_bind, first.board] at hrun
  constructor
  · rw [hrun]
    exact ends
  · rw [hrun, afterGroups_append]
    exact board
  · rw [hrun, groupRuns_append, List.flatMap_append, ← first.transfers, ← transfers]
    exact List.filter_append _ _

/-- What follows may ask nothing of the bus. -/
theorem bind_quiet {p : Program α} {f : α → Program β} (first : GoesThrough p gs m)
    (rest : ∀ x, (p.run MemoryChip.board m).outcome = .ok x →
      GoesThrough (f x) [] (afterGroups gs m)) : GoesThrough (p >>= f) gs m := by
  have both := first.bind rest
  rwa [List.append_nil] at both

theorem log (level : Log.Level) (text : String) (m : MemoryChip) :
    GoesThrough (Program.log level text) [] m :=
  of_quiet rfl fun e he => by
    obtain rfl := List.mem_singleton.mp he
    rfl

theorem group {g : Group} {m : MemoryChip} (h : ∃ x, (m.run g.action).outcome = .ok x) :
    GoesThrough g.action.run [g] m where
  ends := h
  board := rfl
  transfers := (List.append_nil _).symm

/-- An access is a group of its own once its result says how it went. -/
theorem access {a : Footprint} {p : Access α} (h : a.Covers p.run) (name : String)
    (result : α → Outcome) (m : MemoryChip) : GoesThrough p.run [⟨name, result <$> p⟩] m where
  ends := h.ends m
  board := by
    rw [afterGroups, afterGroups, MemoryChip.run_map]
    rfl
  transfers := by
    rw [groupRuns, groupRuns, MemoryChip.run_map]
    exact (List.append_nil _).symm

theorem record {t : Tally} (room : t.total < 255) (name : String)
    (result : Except ChipError Outcome) (m : MemoryChip) :
    GoesThrough (t.record name result) [] m := by
  obtain ⟨events, hrun, quiet⟩ := Tally.record_quiet room name result m
  exact of_quiet hrun quiet

/-- A pass goes through groups that all come to an end. -/
theorem runGroups_of_ends (h : ∀ r ∈ groupRuns gs m, ∃ x, r.outcome = .ok x) {t : Tally}
    (room : t.total + gs.length ≤ 255) : GoesThrough (t.runGroups gs) gs m := by
  induction gs generalizing t m with
  | nil => exact .pure t m
  | cons g gs ih =>
    obtain ⟨hg, hgs⟩ := List.forall_mem_cons.mp h
    rw [List.length_cons] at room
    change GoesThrough ((g.action.run >>= t.record g.name) >>= fun t => t.runGroups gs)
      ([g] ++ ([] ++ gs)) m
    rw [bind_assoc]
    refine (group hg).bind fun result _ => ?_
    refine (record (by omega) g.name result _).bind fun t' ht => ?_
    have total := Tally.total_of_record (by omega) ht
    exact ih hgs (by omega)

theorem runGroups {a : Footprint} (h : ∀ g ∈ gs, a.Covers g.action.run) {t : Tally}
    (room : t.total + gs.length ≤ 255) (m : MemoryChip) : GoesThrough (t.runGroups gs) gs m := by
  refine runGroups_of_ends ?_ room
  clear room
  induction gs generalizing m with
  | nil => exact fun _ hr => absurd hr List.not_mem_nil
  | cons g gs ih =>
    obtain ⟨hg, hgs⟩ := List.forall_mem_cons.mp h
    exact List.forall_mem_cons.mpr ⟨hg.ends m, ih hgs _⟩

/-- What follows starts where the groups have left the chip. -/
theorem outcome_bind {p : Program α} (h : GoesThrough p gs m) (f : α → Program β) :
    ∃ x, (p.run MemoryChip.board m).outcome = .ok x ∧
      ((p >>= f).run MemoryChip.board m).outcome =
        ((f x).run MemoryChip.board (afterGroups gs m)).outcome := by
  obtain ⟨x, hx⟩ := h.ends
  refine ⟨x, hx, ?_⟩
  rw [Program.run_bind, Program.Run.andThen_of_ok hx, h.board]

/-- What the program writes is what the groups write. -/
theorem writes {p : Program α} (h : GoesThrough p gs m) :
    (p.run MemoryChip.board m).writes = (groupRuns gs m).flatMap Program.Run.writes := by
  have transfers := congrArg (List.filterMap Event.write?) h.transfers
  rw [Program.Run.transfers, Event.filterMap_write_transfers, List.filterMap_flatMap] at transfers
  refine transfers.trans ?_
  congr
  funext r
  exact Event.filterMap_write_transfers r.events

end GoesThrough

/-! ## Groups that are apart -/

section
variable {gs : List Group} {parts : List Footprint}

/-- What no group writes stays in place. -/
theorem agree_afterGroups
    (covers : List.Forall₂ (fun g a => Footprint.Covers a g.action.run) gs parts) {b : Footprint}
    (apart : ∀ a ∈ parts, a.Apart b) (m : MemoryChip) : b.Agree m (afterGroups gs m) := by
  induction covers generalizing m with
  | nil => exact .refl b m
  | cons hg _ ih =>
    obtain ⟨ha, hrest⟩ := List.forall_mem_cons.mp apart
    exact ((hg.spares m).agree ha).trans (ih hrest _)

/-- Wherever all transfers of a group went through, its fields hold the same in both files. -/
def Isolated (runs : List GroupRun) (fields : List (List Field)) (final goal : RegisterFile) :
    Prop :=
  List.Forall₂ (fun r fs => r.Unfailed → AgreeOn fs final goal) runs fields

/-- Later changes to other fields do no harm. -/
theorem Isolated.move {runs : List GroupRun} {fields : List (List Field)}
    {final goal final' goal' : RegisterFile} (h : Isolated runs fields final goal)
    (hfinal : ∀ fs ∈ fields, AgreeOn fs final final')
    (hgoal : ∀ fs ∈ fields, AgreeOn fs goal goal') : Isolated runs fields final' goal' := by
  unfold Isolated at h ⊢
  induction h with
  | nil => exact .nil
  | cons hr _ ih =>
    obtain ⟨hf, hfs⟩ := List.forall_mem_cons.mp hfinal
    obtain ⟨hg, hgs⟩ := List.forall_mem_cons.mp hgoal
    exact .cons (fun unfailed => hf.symm.trans ((hr unfailed).trans hg)) (ih hfs hgs)

/-- Groups that are apart do not carry a failure from one to another: the second chip, on a bus
that never fails, ends like the first in the fields of every group that met no failure. -/
theorem isolated_of_apart
    (covers : List.Forall₂ (fun g a => Footprint.Covers a g.action.run) gs parts)
    (apart : parts.Pairwise Footprint.Apart) {m n : MemoryChip} (reliable : n = n.reliable)
    (agree : ∀ a ∈ parts, a.Agree m n) :
    Isolated (groupRuns gs m) (parts.map (·.writes)) (afterGroups gs m).registers
      (afterGroups gs n).registers := by
  induction covers generalizing m n with
  | nil => exact .nil
  | @cons g a gs parts hg hgs ih =>
    obtain ⟨ha, hparts⟩ := List.pairwise_cons.mp apart
    obtain ⟨agree_first, agree_rest⟩ := List.forall_mem_cons.mp agree
    have reliable' : (n.run g.action).board = (n.run g.action).board.reliable :=
      Program.board_reliable _ reliable
    have agree' : ∀ b ∈ parts, b.Agree (m.run g.action).board (n.run g.action).board := by
      intro b hb
      have left := (hg.spares m).agree (ha b hb)
      have right := (hg.spares n).agree (ha b hb)
      exact left.symm.trans ((agree_rest b hb).trans right)
    refine .cons (fun unfailed => ?_) (ih hparts reliable' agree')
    -- Without a failure the group does what it does on a reliable bus.
    have clean : (m.reliable.run g.action).board = (m.run g.action).board.reliable :=
      congrArg Program.Run.board (Program.run_of_unfailed unfailed)
    have after := (hg.follows agree_first).2
    rw [← reliable] at after
    have same :
        AgreeOn a.writes (m.run g.action).board.registers (n.run g.action).board.registers := by
      have := after.writes
      rw [show (g.action.run.run MemoryChip.board m.reliable).board = _ from clean] at this
      exact this
    have left := (agree_afterGroups hgs (fun b hb => (ha b hb).symm) (m.run g.action).board).writes
    have right := (agree_afterGroups hgs (fun b hb => (ha b hb).symm) (n.run g.action).board).writes
    exact left.symm.trans (same.trans right)

end

end Chip

end Bringup
