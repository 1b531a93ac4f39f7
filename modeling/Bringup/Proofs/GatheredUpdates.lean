import Bringup.Proofs.GroupIsolation
import Bringup.Proofs.Update

/-! Updates of one register that are gathered in a patch. The patch does at once what the calls
that make it up would do one after another, whatever bits they have in common. -/
namespace Bringup.Chip

open Bench (MemoryChip RegisterFile)

namespace Patch

/-- What takes one more field into a patch. -/
inductive Call where
  | field (mask bits : UInt8)
  | flag (mask : UInt8) (on : Bool)
  deriving DecidableEq, Repr

namespace Call

def mask : Call → UInt8
  | field mask _ => mask
  | flag mask _ => mask

/-- Only bits within the mask count. -/
def bits : Call → UInt8
  | field mask bits => bits &&& mask
  | flag mask on => (if on then mask else 0) &&& mask

def addTo (p : Patch) : Call → Patch
  | field mask bits => p.field mask bits
  | flag mask on => p.flag mask on

theorem bits_within (c : Call) : c.bits &&& ~~~c.mask = 0 := by
  have within (bits mask : UInt8) : bits &&& mask &&& ~~~mask = 0 := by
    rw [UInt8.and_assoc]
    simp
  cases c with
  | field mask bits => exact within bits mask
  | flag mask on => exact within _ mask

/-- The call as a revision of its own. -/
def revision (c : Call) (r : UInt8) : Revision := ⟨⟨r, c.mask⟩, c.bits, c.bits_within⟩

/-- The call by itself. -/
def alone (c : Call) (d : Device) (r : UInt8) : Access Unit := do
  let _ ← d.update ⟨r, c.mask⟩ c.bits

theorem addTo_eq (p : Patch) (c : Call) : c.addTo p = p.field c.mask c.bits := by
  have twice (bits mask : UInt8) : bits &&& mask &&& mask = bits &&& mask := by
    rw [UInt8.and_assoc, UInt8.and_self]
  have same (mask bits : UInt8) : p.field mask bits = p.field mask (bits &&& mask) := by
    simp only [Patch.field, twice]
  cases c with
  | field mask bits => exact same mask bits
  | flag mask on => exact same mask _

end Call

/-- A patch put together by calls in order. -/
def gather (calls : List Call) : Patch := calls.foldl Call.addTo empty

/-- Every bit that one of the calls covers. -/
def union (calls : List Call) : UInt8 := calls.foldl (fun mask c => mask ||| c.mask) 0

theorem mask_foldl (calls : List Call) (p : Patch) :
    (calls.foldl Call.addTo p).mask = calls.foldl (fun mask c => mask ||| c.mask) p.mask := by
  induction calls generalizing p with
  | nil => rfl
  | cons c calls ih =>
    rw [List.foldl_cons, List.foldl_cons, ih, c.addTo_eq]
    rfl

theorem gather_mask (calls : List Call) : (gather calls).mask = union calls :=
  mask_foldl calls empty

theorem fits_foldl {p : Patch} (h : p.Fits) (calls : List Call) :
    (calls.foldl Call.addTo p).Fits := by
  induction calls generalizing p with
  | nil => exact h
  | cons c calls ih =>
    refine ih ?_
    rw [c.addTo_eq]
    exact h.field c.mask c.bits

theorem gather_fits (calls : List Call) : (gather calls).Fits := fits_foldl fits_empty calls

/-- Each call does to the byte what it would do by itself. -/
theorem onto_foldl (calls : List Call) (p : Patch) (r byte : UInt8) :
    (calls.foldl Call.addTo p).onto byte =
      calls.foldl (fun b c => (c.revision r).byte b) (p.onto byte) := by
  induction calls generalizing p with
  | nil => rfl
  | cons c calls ih =>
    rw [List.foldl_cons, List.foldl_cons, ih, c.addTo_eq, p.onto_field ⟨r, c.mask⟩ c.bits_within]
    rfl

theorem gather_onto (calls : List Call) (r byte : UInt8) :
    (gather calls).onto byte = calls.foldl (fun b c => (c.revision r).byte b) byte := by
  rw [gather, onto_foldl calls empty r, onto_empty]

/-- The gathered revision is the revisions of the calls. -/
theorem apply_gather (calls : List Call) (r : UInt8) (f : RegisterFile) :
    ((gather calls).revision (gather_fits calls) r).apply f =
      Revision.applyAll (calls.map (·.revision r)) f := by
  have elsewhere {q : UInt8} (other : r ≠ q) : ∀ v ∈ calls.map (·.revision r),
      v.field.register ≠ q := by
    intro v hv
    obtain ⟨c, -, rfl⟩ := List.mem_map.mp hv
    exact other
  have own (b : UInt8) (c : Call) :
      (if (c.revision r).field.register = r then (c.revision r).byte b else b) =
        (c.revision r).byte b := if_pos rfl
  apply RegisterFile.ext
  intro q
  by_cases same : r = q
  · subst same
    rw [Revision.apply, Revision.get_applyAll, List.foldl_map]
    simp only [own]
    rw [← gather_onto calls r (f.get r)]
    exact RegisterFile.get_set_self f r _
  · rw [Revision.get_applyAll_of_ne (elsewhere same)]
    exact RegisterFile.get_set_of_ne f _ same

/-- Without a failure an update comes to its revision. -/
theorem run_revision (d : Device) (v : Revision) (f : RegisterFile) (hosts : Nat → Bool) :
    ∃ wrote events, MemoryChip.run ⟨f, .never, hosts⟩ (d.update v.field v.bits) =
      ⟨.ok (.ok wrote), events, ⟨v.apply f, .never, hosts⟩⟩ := by
  obtain ⟨wrote, events, run, -⟩ := run_update d v (Bench.Faults.none_spares _) f hosts
  exact ⟨wrote, events, run⟩

/-- The calls made one after another. -/
theorem run_alone (calls : List Call) (d : Device) (r : UInt8) (f : RegisterFile)
    (hosts : Nat → Bool) :
    ∃ events, MemoryChip.run ⟨f, .never, hosts⟩ (calls.forM fun c => c.alone d r) =
      ⟨.ok (.ok ()), events,
        ⟨Revision.applyAll (calls.map (·.revision r)) f, .never, hosts⟩⟩ := by
  induction calls generalizing f with
  | nil => exact ⟨[], rfl⟩
  | cons c calls ih =>
    obtain ⟨wrote, events, first⟩ := run_revision d (c.revision r) f hosts
    obtain ⟨others, rest⟩ := ih ((c.revision r).apply f)
    have alone : MemoryChip.run ⟨f, .never, hosts⟩ (c.alone d r) =
        ⟨.ok (.ok ()), events, ⟨(c.revision r).apply f, .never, hosts⟩⟩ := by
      change MemoryChip.run ⟨f, .never, hosts⟩
        (d.update (c.revision r).field (c.revision r).bits >>= fun _ => pure ()) = _
      rw [MemoryChip.run_bind, first, Program.Run.andThen_ok]
      simp
    refine ⟨events ++ others, ?_⟩
    change MemoryChip.run ⟨f, .never, hosts⟩
      (c.alone d r >>= fun _ => calls.forM fun c => c.alone d r) = _
    rw [MemoryChip.run_bind, alone, Program.Run.andThen_ok]
    dsimp only
    rw [rest]
    rfl

/-- One look at the register and at most one write to it. What comes of it is not that nothing was
configured, and no bits were refused. -/
structure LooksOnce (d : Device) (r : UInt8)
    (run : Program.Run MemoryChip (Except ChipError Outcome)) : Prop where
  transfers : ∃ seen writes, run.transfers = ⟨.busRead d.address r 1, seen⟩ :: writes ∧
    writes.length ≤ 1 ∧ ∀ e ∈ writes, ∃ byte done, e = ⟨.busWrite d.address r [byte], done⟩
  outcome : ∃ result, run.outcome = .ok result ∧ result ≠ .ok .skipped ∧
    result ≠ .error .invalidInput

theorem apply_of_mask {p : Patch} (h : p.mask = 0) (d : Device) (r : UInt8) (m : MemoryChip) :
    m.run (p.apply d r) = ⟨.ok (.ok .skipped), [], m⟩ := by
  rw [apply, if_pos h]
  rfl

/-- Without a failure the register is revised. A patch that covers nothing revises nothing. -/
theorem run_apply {p : Patch} (fits : p.Fits) (d : Device) (r : UInt8) (f : RegisterFile)
    (hosts : Nat → Bool) :
    ∃ outcome events, MemoryChip.run ⟨f, .never, hosts⟩ (p.apply d r) =
      ⟨.ok (.ok outcome), events, ⟨(p.revision fits r).apply f, .never, hosts⟩⟩ := by
  by_cases h : p.mask = 0
  · have board := (Brings.patch fits d (Bench.Faults.none_spares r) f hosts).board
    have run := apply_of_mask h d r ⟨f, .never, hosts⟩
    change (MemoryChip.run ⟨f, .never, hosts⟩ (p.apply d r)).board = _ at board
    rw [run] at board
    exact ⟨.skipped, [], run.trans (congrArg (Program.Run.mk _ _) board)⟩
  · obtain ⟨wrote, events, run⟩ := run_revision d (p.revision fits r) f hosts
    refine ⟨.ofWritten wrote, events, ?_⟩
    rw [apply, if_neg h]
    change MemoryChip.run ⟨f, .never, hosts⟩
      (Outcome.ofWritten <$> d.update (p.revision fits r).field (p.revision fits r).bits) = _
    rw [MemoryChip.run_map, run]
    rfl

theorem looksOnce {p : Patch} (fits : p.Fits) (h : p.mask ≠ 0) (d : Device) (r : UInt8)
    (m : MemoryChip) : LooksOnce d r (m.run (p.apply d r)) := by
  have run := updateRun d (p.revision fits r) m
  have mapped : m.run (p.apply d r) =
      ⟨(m.run (d.update ⟨r, p.mask⟩ p.bits)).outcome.map (·.map Outcome.ofWritten),
        (m.run (d.update ⟨r, p.mask⟩ p.bits)).events,
        (m.run (d.update ⟨r, p.mask⟩ p.bits)).board⟩ := by
    rw [apply, if_neg h]
    exact m.run_map Outcome.ofWritten _
  rw [mapped]
  have one {byte : UInt8} {done : Except Int Unit} {e : Event}
      (he : e = ⟨.busWrite d.address r [byte], done⟩) :
      ∀ e' ∈ [e], ∃ byte done, e' = ⟨.busWrite d.address r [byte], done⟩ := by
    intro e' he'
    exact ⟨byte, done, (List.mem_singleton.mp he').trans he⟩
  change UpdateRun d _ m (m.run (d.update ⟨r, p.mask⟩ p.bits)) at run
  generalize m.run (d.update ⟨r, p.mask⟩ p.bits) = given at run ⊢
  cases run with
  | unread code line =>
    exact ⟨⟨_, [], rfl, by decide, nofun⟩, _, rfl, nofun, nofun⟩
  | unchanged holds =>
    exact ⟨⟨_, [], rfl, by decide, nofun⟩, _, rfl, nofun, nofun⟩
  | unwritten holds code line =>
    exact ⟨⟨_, [_], rfl, Nat.le_refl 1, one rfl⟩, _, rfl, nofun, nofun⟩
  | written holds =>
    exact ⟨⟨_, [_], rfl, Nat.le_refl 1, one rfl⟩, _, rfl, nofun, nofun⟩

end Patch

/-- Whatever calls put a patch together, it holds no bits outside of its mask. If they cover no bit
at all it is skipped without looking at the register; otherwise it looks once and writes at most
once, whichever transfers fail. Without a failure it leaves the chip just as the calls do when each
is an update of its own. -/
theorem gathered_as_single_steps (calls : List Patch.Call) (d : Device) (r : UInt8) :
    (Patch.gather calls).bits &&& ~~~(Patch.gather calls).mask = 0 ∧
    (∀ m : MemoryChip,
      (Patch.union calls = 0 →
        m.run ((Patch.gather calls).apply d r) = ⟨.ok (.ok .skipped), [], m⟩) ∧
      (Patch.union calls ≠ 0 →
        Patch.LooksOnce d r (m.run ((Patch.gather calls).apply d r)))) ∧
    ∀ f hosts, ∃ outcome events singles g,
      MemoryChip.run ⟨f, .never, hosts⟩ (Patch.apply (.gather calls) d r) =
        ⟨.ok (.ok outcome), events, ⟨g, .never, hosts⟩⟩ ∧
      MemoryChip.run ⟨f, .never, hosts⟩ (calls.forM fun c => c.alone d r) =
        ⟨.ok (.ok ()), singles, ⟨g, .never, hosts⟩⟩ := by
  have fits := Patch.gather_fits calls
  refine ⟨fits, fun m => ⟨fun none => ?_, fun some => ?_⟩, fun f hosts => ?_⟩
  · exact Patch.apply_of_mask ((Patch.gather_mask calls).trans none) d r m
  · exact Patch.looksOnce fits (fun zero => some ((Patch.gather_mask calls).symm.trans zero)) d r m
  · obtain ⟨outcome, events, gathered⟩ := Patch.run_apply fits d r f hosts
    obtain ⟨singles, alone⟩ := Patch.run_alone calls d r f hosts
    rw [Patch.apply_gather] at gathered
    exact ⟨outcome, events, singles, _, gathered, alone⟩

/-- Calls that override each other's bits, and calls that cover no bit. -/
theorem overlapping_calls_gathered :
    let calls : List Patch.Call :=
      [.field 0xC0 0x40, .flag 0x08 true, .field 0x48 0x08, .field 0x03 0xFF]
    let none : List Patch.Call := [.field 0 0xFF, .flag 0 true]
    let m : MemoryChip := ⟨RegisterFile.zero.set 0x36 0x55, .never, fun _ => true⟩
    let gathered := m.run (Patch.apply (.gather calls) .standard 0x36)
    Patch.union calls ≠ 0 ∧ Patch.union none = 0 ∧
    Patch.LooksOnce .standard 0x36 gathered ∧
    gathered.board.registers.get 0x36 = 0x1F ∧
    gathered.board = (m.run (calls.forM fun c => c.alone .standard 0x36)).board ∧
    m.run (Patch.apply (.gather none) .standard 0x36) = ⟨.ok (.ok .skipped), [], m⟩ := by
  intro calls none m gathered
  have some : Patch.union calls ≠ 0 := by decide
  have nothing : Patch.union none = 0 := by decide
  obtain ⟨-, looks, same⟩ := gathered_as_single_steps calls .standard 0x36
  obtain ⟨-, skips, -⟩ := gathered_as_single_steps none .standard 0x36
  obtain ⟨outcome, events, singles, g, first, second⟩ := same m.registers m.hosts
  refine ⟨some, nothing, (looks m).2 some, by decide +kernel, ?_, (skips m).1 nothing⟩
  exact (congrArg Program.Run.board first).trans (congrArg Program.Run.board second).symm

end Bringup.Chip
