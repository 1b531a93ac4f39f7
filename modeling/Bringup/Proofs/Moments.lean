import Bringup.Proofs.GroupIsolation

/-! The registers of a chip at every moment of a run. They are what the writes so far have made of
them, and at each moment of a conditional update they are as before or revised. -/
namespace Bringup

open Bench (MemoryChip RegisterFile)
open Program (Run)

/-! ## Registers between events -/

/-- The registers once the event has happened. A write that failed stores nothing. -/
def Event.after (f : RegisterFile) : Event → RegisterFile
  | ⟨.busWrite _ start bytes, .ok ()⟩ => f.setAll start bytes
  | _ => f

theorem Event.after_of_not_transfer {e : Event} (h : e.isTransfer = false) (f : RegisterFile) :
    e.after f = f := by
  obtain ⟨request, answer⟩ := e
  cases request with
  | busWrite => cases h
  | _ => rfl

/-- The registers once all the events have happened. -/
def replay (f : RegisterFile) (events : List Event) : RegisterFile := events.foldl Event.after f

/-- Only transfers count. -/
theorem replay_transfers (f : RegisterFile) (events : List Event) :
    replay f (events.filter Event.isTransfer) = replay f events := by
  induction events generalizing f with
  | nil => rfl
  | cons e events ih =>
    cases h : e.isTransfer with
    | true =>
      rw [List.filter_cons_of_pos h]
      exact ih (e.after f)
    | false =>
      have quiet : replay f (e :: events) = replay f events :=
        congrArg (replay · events) (e.after_of_not_transfer h f)
      rw [List.filter_cons_of_neg (by simp [h]), quiet]
      exact ih f

/-- Without a write the registers stay as they are. -/
theorem replay_of_no_write {events : List Event} (h : events.filterMap Event.write? = [])
    (f : RegisterFile) : replay f events = f := by
  induction events generalizing f with
  | nil => rfl
  | cons e events ih =>
    obtain ⟨request, answer⟩ := e
    cases request with
    | busWrite => simp [Event.write?] at h
    | _ => exact ih (by simpa [Event.write?] using h) f

theorem Bench.MemoryChip.board_registers (m : MemoryChip) (r : Request) :
    (board m r).2.registers = Event.after m.registers ⟨r, (board m r).1⟩ := by
  cases r with
  | busRead address start count =>
    cases h : m.plan 0 start .read <;> simp only [board, h] <;> rfl
  | busWrite address start bytes =>
    cases h : m.plan 0 start .write <;> simp only [board, h] <;> rfl
  | _ => rfl

/-- What a run leaves in the registers can be told from its events. -/
theorem Program.run_registers {α : Type} (p : Program α) (m : MemoryChip) :
    (p.run MemoryChip.board m).board.registers =
      replay m.registers (p.run MemoryChip.board m).events := by
  induction p generalizing m with
  | done | fault => rfl
  | ask r next ih =>
    rw [run_ask, ih, m.board_registers]
    rfl

/-- Each of the events is all right where it happens, that is on the registers it finds. -/
def Throughout (ok : RegisterFile → Event → Prop) : RegisterFile → List Event → Prop
  | _, [] => True
  | f, e :: events => ok f e ∧ Throughout ok (e.after f) events

instance Throughout.decidable (ok : RegisterFile → Event → Prop) [∀ f e, Decidable (ok f e)] :
    (f : RegisterFile) → (events : List Event) → Decidable (Throughout ok f events)
  | _, [] => .isTrue trivial
  | f, e :: events =>
      have := Throughout.decidable ok (e.after f) events
      inferInstanceAs (Decidable (ok f e ∧ Throughout ok (e.after f) events))

namespace Throughout

variable {ok : RegisterFile → Event → Prop} {f : RegisterFile}

theorem append {xs ys : List Event} (hx : Throughout ok f xs)
    (hy : Throughout ok (replay f xs) ys) : Throughout ok f (xs ++ ys) := by
  induction xs generalizing f with
  | nil => exact hy
  | cons e xs ih => exact ⟨hx.1, ih hx.2 hy⟩

theorem imp {ok' : RegisterFile → Event → Prop} {events : List Event}
    (h : Throughout ok f events) (weaker : ∀ f e, ok f e → ok' f e) : Throughout ok' f events := by
  induction events generalizing f with
  | nil => trivial
  | cons e events ih => exact ⟨weaker f e h.1, ih h.2⟩

theorem transfers {events : List Event} (h : Throughout ok f events) :
    Throughout ok f (events.filter Event.isTransfer) := by
  induction events generalizing f with
  | nil => trivial
  | cons e events ih =>
    cases ht : e.isTransfer with
    | true =>
      rw [List.filter_cons_of_pos ht]
      exact ⟨h.1, ih h.2⟩
    | false =>
      rw [List.filter_cons_of_neg (by simp [ht])]
      have rest := h.2
      rw [e.after_of_not_transfer ht] at rest
      exact ih rest

end Throughout

/-! ## Conditional updates -/

namespace Chip

/-- Afterwards the revision holds if it did before, or if nothing failed. -/
theorem holds_update_iff (d : Device) (v : Revision) (m : MemoryChip) :
    v.Holds (m.run (d.update v.field v.bits)).board.registers ↔
      v.Holds m.registers ∨ (m.run (d.update v.field v.bits)).Unfailed := by
  have h := updateRun d v m
  generalize m.run (d.update v.field v.bits) = run at h ⊢
  cases h with
  | unread code line => simp [Run.Unfailed, Event.failed, MemoryChip.next]
  | unchanged holds => simp [holds, MemoryChip.next]
  | unwritten holds code line => simp [holds, Run.Unfailed, Event.failed, MemoryChip.next]
  | written holds => simp [v.holds_apply, Run.Unfailed, Event.failed]

/-- An update goes through nothing that its one write does not bring about. -/
theorem throughout_update (d : Device) (v : Revision) (m : MemoryChip)
    {ok : RegisterFile → Event → Prop} (still : ∀ e f, e.after f = f → ok f e)
    (moved : ∀ e, e.after m.registers = v.apply m.registers → ok m.registers e) :
    Throughout ok m.registers (m.run (d.update v.field v.bits)).events := by
  have h := updateRun d v m
  generalize m.run (d.update v.field v.bits) = run at h ⊢
  cases h with
  | unread code line => exact ⟨still _ _ rfl, still _ _ rfl, trivial⟩
  | unchanged holds => exact ⟨still _ _ rfl, trivial⟩
  | unwritten holds code line => exact ⟨still _ _ rfl, still _ _ rfl, still _ _ rfl, trivial⟩
  | written holds => exact ⟨still _ _ rfl, moved _ rfl, trivial⟩

end Chip

end Bringup
