import Bringup.Chip.Status
import Bringup.Chip.Tally
import Bringup.Proofs.MemoryChip

/-! A pass over configuration groups. The chip sees the groups one after another: recording a
result asks nothing of it, and no pass is long enough to fill a counter. -/
namespace Bringup

open Bench (Faults MemoryChip Plan RegisterFile)

namespace Chip

namespace Tally

/-- How many results have been counted. -/
def total (t : Tally) : Nat :=
  t.written.toNat + t.unchanged.toNat + t.skipped.toNat + t.incomplete.toNat + t.failed.toNat

/-- The tally with one more result, as long as there is room for it. -/
def tick (t : Tally) : Except ChipError Outcome → Tally
  | .ok .written => { t with written := t.written + 1 }
  | .ok .unchanged => { t with unchanged := t.unchanged + 1 }
  | .ok .skipped => { t with skipped := t.skipped + 1 }
  | .error (.incomplete _) => { t with incomplete := t.incomplete + 1 }
  | .error _ => { t with failed := t.failed + 1 }

theorem count_one {a : UInt8} (h : a.toNat < 255) : count a 1 = .ok (a + 1) := by
  have hlt : a.toNat + (1 : UInt8).toNat < UInt8.size := by
    rw [UInt8.toNat_one, UInt8.size]
    omega
  simp only [count, Checked.byte, if_pos hlt]
  congr 1

theorem total_tick {t : Tally} (room : t.total < 255) (result : Except ChipError Outcome) :
    (t.tick result).total = t.total + 1 := by
  unfold total at room
  have add (a : UInt8) (h : a.toNat < 255) : (a + 1).toNat = a.toNat + 1 := by
    rw [UInt8.toNat_add]
    simp
    omega
  rcases result with (_ | _ | _) | (_ | _ | _)
  all_goals
    simp only [tick, total]
    rw [add _ (by omega)]
    omega

theorem total_ticks {t : Tally} {results : List (Except ChipError Outcome)}
    (room : t.total + results.length ≤ 255) :
    (results.foldl tick t).total = t.total + results.length := by
  induction results generalizing t with
  | nil => rfl
  | cons r rs ih =>
    rw [List.length_cons] at room ⊢
    have ht := total_tick (show t.total < 255 by omega) r
    rw [List.foldl_cons, ih (by omega), ht]
    omega

/-- Recording asks nothing of the bus. -/
theorem record_quiet {t : Tally} (room : t.total < 255) (group : String)
    (result : Except ChipError Outcome) (m : MemoryChip) :
    ∃ events, (t.record group result).run MemoryChip.board m = ⟨.ok (t.tick result), events, m⟩ ∧
      ∀ e ∈ events, e.isTransfer = false := by
  unfold total at room
  rcases result with (_ | _ | _) | (_ | _ | _)
  all_goals
    simp only [record, tick]
    rw [count_one (by omega)]
    simp [Program.single, MemoryChip.board, Except.map, Event.isTransfer]

/-- Recording leaves the chip alone. -/
theorem record_run {t : Tally} (room : t.total < 255) (group : String)
    (result : Except ChipError Outcome) (m : MemoryChip) :
    ∃ events, (t.record group result).run MemoryChip.board m = ⟨.ok (t.tick result), events, m⟩ ∧
      events.filterMap Event.write? = [] := by
  obtain ⟨events, hrun, quiet⟩ := record_quiet room group result m
  have silent : events.filterMap Event.write? = [] :=
    List.filterMap_eq_nil_iff.mpr fun e he => Event.write?_of_not_transfer (quiet e he)
  exact ⟨events, hrun, silent⟩

end Tally

/-- A pass as the chip sees it: what the groups come to, what they write on the way, and the
chip at the end. -/
inductive Passes : List Group → MemoryChip → List (Except ChipError Outcome) →
    List (UInt8 × List UInt8) → MemoryChip → Prop
  | nil (m : MemoryChip) : Passes [] m [] [] m
  | cons {g : Group} {gs : List Group} {m m' m'' : MemoryChip} {result : Except ChipError Outcome}
      {results : List (Except ChipError Outcome)} {events : List Event}
      {writes : List (UInt8 × List UInt8)}
      (first : m.run g.action = ⟨.ok result, events, m'⟩)
      (rest : Passes gs m' results writes m'') :
      Passes (g :: gs) m (result :: results) (events.filterMap Event.write? ++ writes) m''

namespace Passes

variable {gs : List Group} {m m' : MemoryChip} {results : List (Except ChipError Outcome)}
  {writes : List (UInt8 × List UInt8)}

theorem length_eq (h : Passes gs m results writes m') : results.length = gs.length := by
  induction h with
  | nil => rfl
  | cons _ _ ih => simp [ih]

theorem total_eq (h : Passes gs m results writes m') {t : Tally}
    (room : t.total + gs.length ≤ 255) :
    (results.foldl Tally.tick t).total = t.total + gs.length := by
  have hlen := h.length_eq
  rw [Tally.total_ticks (by omega), hlen]

/-- The program of a pass does what the chip sees, and counts the results. -/
theorem runGroups_run (h : Passes gs m results writes m') {t : Tally}
    (room : t.total + gs.length ≤ 255) :
    ∃ events,
      (t.runGroups gs).run MemoryChip.board m = ⟨.ok (results.foldl Tally.tick t), events, m'⟩ ∧
      events.filterMap Event.write? = writes := by
  induction h generalizing t with
  | nil m => exact ⟨[], rfl, rfl⟩
  | @cons g gs m m₁ m₂ result results events writes first rest ih =>
    rw [List.length_cons] at room
    have ht := Tally.total_tick (show t.total < 255 by omega) result
    obtain ⟨lines, hl, hq⟩ := Tally.record_run (show t.total < 255 by omega) g.name result m₁
    obtain ⟨others, ho, hw⟩ := ih (t := t.tick result) (by omega)
    refine ⟨events ++ lines ++ others, ?_, ?_⟩
    · change (Program.run MemoryChip.board
        ((g.action.run >>= t.record g.name) >>= fun t => t.runGroups gs) m) = _
      have first' : Program.run MemoryChip.board g.action.run m = ⟨.ok result, events, m₁⟩ := first
      rw [Program.run_bind, Program.run_bind, first']
      simp [hl, ho]
    · simp [List.filterMap_append, hq, hw]

end Passes

namespace Device

/-- Looking at a register leaves the chip as it is, whether or not the bus lets it through. -/
theorem readByte_run (d : Device) (r : UInt8) (f : RegisterFile) (q : Faults) (hosts : Nat → Bool) :
    ∃ result events, MemoryChip.run ⟨f, .always q, hosts⟩ (d.readByte r) =
        ⟨.ok result, events, ⟨f, .always q, hosts⟩⟩ ∧
      events.filterMap Event.write? = [] := by
  cases h : q r .read with
  | none => exact ⟨_, _, MemoryChip.run_readByte d h f hosts, rfl⟩
  | some code =>
    obtain ⟨line, hl⟩ := MemoryChip.run_readByte_fails d h f hosts
    exact ⟨_, _, hl, rfl⟩

end Device

end Chip

end Bringup
