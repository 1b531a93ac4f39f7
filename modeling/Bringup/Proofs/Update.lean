import Bringup.Proofs.Revision

/-! Accesses that come to revisions of the chip: conditional updates, patches, and whole passes
put together from them. -/
namespace Bringup

open Bench (Faults MemoryChip RegisterFile)

namespace Bench.Faults

/-- Every transfer at the register goes through. -/
def Spares (q : Faults) (r : UInt8) : Prop := ∀ direction, q r direction = Option.none

theorem spares_iff {q : Faults} {r : UInt8} :
    q.Spares r ↔ q r .read = Option.none ∧ q r .write = Option.none := by
  constructor
  · intro h
    exact ⟨h .read, h .write⟩
  · rintro ⟨hread, hwrite⟩ direction
    cases direction with
    | read => exact hread
    | write => exact hwrite

theorem none_spares (r : UInt8) : Faults.none.Spares r := fun _ => rfl

theorem failsWrite_read (r r' : UInt8) (code : Int) : failsWrite r code r' .read = Option.none :=
  if_neg fun h => by cases h.2

theorem failsWrite_spares {r r' : UInt8} (code : Int) (h : r' ≠ r) :
    (failsWrite r code).Spares r' :=
  fun _ => if_neg fun both => h both.1

theorem failsWrite_self (r : UInt8) (code : Int) : failsWrite r code r .write = some code :=
  if_pos ⟨rfl, rfl⟩

end Bench.Faults

namespace Chip

variable {α β : Type}

/-- Without a fault, the access makes the revisions and changes nothing else. It writes nothing
where they hold already. -/
structure Brings (p : Access α) (m : MemoryChip) (vs : List Revision) : Prop where
  ends : ∃ result, (m.run p).outcome = .ok result
  board : (m.run p).board = { m with registers := Revision.applyAll vs m.registers }
  quiet : (∀ v ∈ vs, v.Holds m.registers) → (m.run p).writes = []

namespace Brings

variable {p : Access α} {m : MemoryChip} {vs : List Revision}

theorem of_run_eq {result : Except ChipError α} {events : List Event}
    (h : m.run p = ⟨.ok result, events, { m with registers := Revision.applyAll vs m.registers }⟩)
    (quiet : (∀ v ∈ vs, v.Holds m.registers) → events.filterMap Event.write? = []) :
    Brings p m vs := by
  constructor
  · exact ⟨result, by rw [h]⟩
  · rw [h]
  · rw [h]
    exact quiet

theorem pure (a : α) (m : MemoryChip) : Brings (Pure.pure a : Access α) m [] :=
  of_run_eq (MemoryChip.run_pure m a) fun _ => rfl

theorem throw (e : ChipError) (m : MemoryChip) : Brings (throw e : Access α) m [] :=
  of_run_eq (MemoryChip.run_throw m e) fun _ => rfl

/-- What is done with the result takes no transfer. -/
theorem map (h : Brings p m vs) (g : α → β) : Brings (g <$> p) m vs := by
  obtain ⟨result, hr⟩ := h.ends
  constructor
  · exact ⟨result.map g, by simp [hr, Except.map]⟩
  · simpa using h.board
  · intro hv
    simpa [Program.Run.writes] using h.quiet hv

/-- What comes before without writing anything is passed over. -/
theorem after_quiet {p : Access α} {k : α → Access β} {a : α} {events : List Event}
    (h : m.run p = ⟨.ok (.ok a), events, m⟩) (quiet : events.filterMap Event.write? = [])
    (hk : Brings (k a) m vs) : Brings (p >>= k) m vs := by
  obtain ⟨result, hr⟩ := hk.ends
  constructor
  · exact ⟨result, by simpa [h] using hr⟩
  · simpa [h] using hk.board
  · intro hv
    simpa [h, Program.Run.writes, quiet] using hk.quiet hv

end Brings

/-- The four ways in which an update of a chip can go. -/
inductive UpdateRun (d : Device) (v : Revision) (m : MemoryChip) :
    Program.Run MemoryChip (Except ChipError Bool) → Prop
  | unread (code : Int) (line : Log.Entry) : UpdateRun d v m
      ⟨.ok (.error (.bus d.address v.field.register .read code)),
        [⟨.busRead d.address v.field.register 1, .error code⟩, ⟨.log line, ()⟩], m.next⟩
  | unchanged (holds : v.Holds m.registers) : UpdateRun d v m
      ⟨.ok (.ok false),
        [⟨.busRead d.address v.field.register 1, .ok #v[m.get v.field.register]⟩], m.next⟩
  | unwritten (holds : ¬ v.Holds m.registers) (code : Int) (line : Log.Entry) : UpdateRun d v m
      ⟨.ok (.error (.bus d.address v.field.register .write code)),
        [⟨.busRead d.address v.field.register 1, .ok #v[m.get v.field.register]⟩,
          ⟨.busWrite d.address v.field.register [v.byte (m.get v.field.register)], .error code⟩,
          ⟨.log line, ()⟩], m.next.next⟩
  | written (holds : ¬ v.Holds m.registers) : UpdateRun d v m
      ⟨.ok (.ok true),
        [⟨.busRead d.address v.field.register 1, .ok #v[m.get v.field.register]⟩,
          ⟨.busWrite d.address v.field.register [v.byte (m.get v.field.register)], .ok ()⟩],
        { m.next.next with registers := v.apply m.registers }⟩

theorem update_eq (d : Device) (v : Revision) :
    d.update v.field v.bits = (do
      let current ← d.readByte v.field.register
      if v.byte current = current then
        return false
      else
        d.writeByte v.field.register (v.byte current)
        return true) := by
  rw [Device.update, if_neg (by simp [v.fits])]
  rfl

theorem updateRun (d : Device) (v : Revision) (m : MemoryChip) :
    UpdateRun d v m (m.run (d.update v.field v.bits)) := by
  rw [update_eq]
  cases hread : m.plan 0 v.field.register .read with
  | some code =>
    obtain ⟨line, hl⟩ := m.run_readByte_next_fails d v.field.register hread
    have run := UpdateRun.unread (d := d) (v := v) (m := m) code line
    simpa [hl] using run
  | none =>
    have looked := m.run_readByte_next d v.field.register hread
    by_cases holds : v.Holds m.registers
    · have same : v.byte (m.get v.field.register) = m.get v.field.register :=
        (v.byte_eq_self_iff _).mpr holds
      have run := UpdateRun.unchanged (d := d) (m := m) holds
      simpa [looked, same] using run
    · have changed : ¬ v.byte (m.get v.field.register) = m.get v.field.register :=
        mt (v.byte_eq_self_iff _).mp holds
      cases hwrite : m.next.plan 0 v.field.register .write with
      | some code =>
        obtain ⟨line, hl⟩ := m.next.run_write_fails d v.field.register
          [v.byte (m.get v.field.register)] hwrite
        have run := UpdateRun.unwritten (d := d) (m := m) holds code line
        simpa [Device.writeByte, looked, Except.map, changed, hl] using run
      | none =>
        have stored : m.next.run (d.write v.field.register [v.byte (m.get v.field.register)]) =
            ⟨.ok (.ok ()), [⟨.busWrite d.address v.field.register
                [v.byte (m.get v.field.register)], .ok ()⟩],
              { m.next.next with registers := v.apply m.registers }⟩ :=
          m.next.run_write d v.field.register _ hwrite
        have run := UpdateRun.written (d := d) (m := m) holds
        simpa [Device.writeByte, looked, Except.map, changed, stored] using run

variable {f : RegisterFile} {q : Faults} {hosts : Nat → Bool}

/-- A revision that holds already costs one look at the register. -/
theorem run_update_of_holds (d : Device) {v : Revision} (h : q.Spares v.field.register)
    (hv : v.Holds f) :
    MemoryChip.run ⟨f, .always q, hosts⟩ (d.update v.field v.bits) =
      ⟨.ok (.ok false), [⟨.busRead d.address v.field.register 1, .ok #v[f.get v.field.register]⟩],
        ⟨f, .always q, hosts⟩⟩ := by
  have hb := (v.byte_eq_self_iff _).mpr hv
  rw [Revision.byte] at hb
  simp [Device.update, v.fits, MemoryChip.run_readByte d (h .read), hb]

theorem run_update_of_not_holds (d : Device) {v : Revision} (h : q.Spares v.field.register)
    (hv : ¬ v.Holds f) :
    MemoryChip.run ⟨f, .always q, hosts⟩ (d.update v.field v.bits) =
      ⟨.ok (.ok true),
        [⟨.busRead d.address v.field.register 1, .ok #v[f.get v.field.register]⟩,
          ⟨.busWrite d.address v.field.register [v.byte (f.get v.field.register)], .ok ()⟩],
        ⟨v.apply f, .always q, hosts⟩⟩ := by
  have hb := mt (v.byte_eq_self_iff _).mp hv
  rw [Revision.byte] at hb
  simp [Device.update, v.fits, MemoryChip.run_readByte d (h .read), hb,
    MemoryChip.run_writeByte d _ (h .write), Except.map]
  exact ⟨rfl, rfl⟩

/-- Either way the update comes to the revision. -/
theorem run_update (d : Device) (v : Revision) (h : q.Spares v.field.register) (f : RegisterFile)
    (hosts : Nat → Bool) :
    ∃ wrote events, MemoryChip.run ⟨f, .always q, hosts⟩ (d.update v.field v.bits) =
        ⟨.ok (.ok wrote), events, ⟨v.apply f, .always q, hosts⟩⟩ ∧
      (v.Holds f → events.filterMap Event.write? = []) := by
  by_cases hv : v.Holds f
  · rw [run_update_of_holds d h hv, Revision.apply_of_holds hv]
    exact ⟨_, _, rfl, fun _ => rfl⟩
  · rw [run_update_of_not_holds d h hv]
    exact ⟨_, _, rfl, fun h => absurd h hv⟩

theorem Brings.update (d : Device) (v : Revision) (h : q.Spares v.field.register) (f : RegisterFile)
    (hosts : Nat → Bool) : Brings (d.update v.field v.bits) ⟨f, .always q, hosts⟩ [v] := by
  obtain ⟨wrote, events, hrun, hq⟩ := run_update d v h f hosts
  exact of_run_eq hrun fun hv => hq (hv v List.mem_cons_self)

theorem Brings.update_bind (d : Device) (v : Revision) (h : q.Spares v.field.register)
    {f : RegisterFile} {vs : List Revision} {k : Bool → Access α}
    (hk : ∀ wrote, Brings (k wrote) ⟨v.apply f, .always q, hosts⟩ vs) :
    Brings (d.update v.field v.bits >>= k) ⟨f, .always q, hosts⟩ (v :: vs) := by
  obtain ⟨wrote, events, hrun, hq⟩ := run_update d v h f hosts
  obtain ⟨result, hr⟩ := (hk wrote).ends
  constructor
  · exact ⟨result, by simpa [hrun] using hr⟩
  · simpa [hrun] using (hk wrote).board
  · intro hv
    have hv₀ := hv v List.mem_cons_self
    have rest := (hk wrote).quiet fun w hw => by
      rw [Revision.apply_of_holds hv₀]
      exact hv w (List.mem_cons_of_mem v hw)
    simpa [hrun, Program.Run.writes, hq hv₀] using rest

/-! ## Patches -/

/-- The byte with the field's bits replaced, if there are any to put there. -/
def Field.put? (f : Field) (bits : Option UInt8) (byte : UInt8) : UInt8 :=
  bits.elim byte (f.replace byte)

namespace Patch

/-- A patch holds no bits outside of its mask. -/
def Fits (p : Patch) : Prop := p.bits &&& ~~~p.mask = 0

/-- What a patch makes of a byte. -/
def onto (p : Patch) (byte : UInt8) : UInt8 := (byte &&& ~~~p.mask) ||| p.bits

def revision (p : Patch) (h : p.Fits) (r : UInt8) : Revision := ⟨⟨r, p.mask⟩, p.bits, h⟩

theorem fits_empty : empty.Fits := by simp [Fits, empty]

theorem Fits.field {p : Patch} (h : p.Fits) (mask bits : UInt8) : (p.field mask bits).Fits := by
  refine within_iff.mpr fun i hi hb => ?_
  have := within_iff.mp h i hi
  simp only [Patch.field, bit_and, bit_or, bit_not _ hi] at hb ⊢
  grind

theorem Fits.flag {p : Patch} (h : p.Fits) (mask : UInt8) (on : Bool) : (p.flag mask on).Fits :=
  h.field mask _

theorem Fits.field? {p : Patch} (h : p.Fits) (mask : UInt8) (bits : Option UInt8) :
    (p.field? mask bits).Fits := by
  cases bits with
  | none => exact h
  | some bits => exact h.field mask bits

theorem Fits.flag? {p : Patch} (h : p.Fits) (mask : UInt8) (on : Option Bool) :
    (p.flag? mask on).Fits := by
  cases on with
  | none => exact h
  | some on => exact h.flag mask on

@[simp]
theorem onto_empty (byte : UInt8) : empty.onto byte = byte := by simp [onto, empty]

/-- A field taken into a patch comes to the same as replacing it afterwards. -/
theorem onto_field (p : Patch) (f : Field) {bits : UInt8} (h : bits &&& ~~~f.mask = 0)
    (byte : UInt8) : (p.field f.mask bits).onto byte = f.replace (p.onto byte) bits := by
  apply bit_ext
  intro i hi
  have := within_iff.mp h i hi
  simp only [onto, Patch.field, Field.bit_replace _ _ _ hi, bit_and, bit_or, bit_not _ hi]
  grind

theorem onto_field? (p : Patch) (f : Field) {bits : Option UInt8}
    (h : ∀ b ∈ bits, b &&& ~~~f.mask = 0) (byte : UInt8) :
    (p.field? f.mask bits).onto byte = f.put? bits (p.onto byte) := by
  cases bits with
  | none => rfl
  | some bits => exact p.onto_field f (h bits rfl) byte

theorem fill_within (f : Field) (on : Bool) : f.fill on &&& ~~~f.mask = 0 := by
  cases on <;> simp [Field.fill]

theorem onto_flag (p : Patch) (f : Field) (on : Bool) (byte : UInt8) :
    (p.flag f.mask on).onto byte = f.replace (p.onto byte) (f.fill on) :=
  p.onto_field f (fill_within f on) byte

theorem onto_flag? (p : Patch) (f : Field) (on : Option Bool) (byte : UInt8) :
    (p.flag? f.mask on).onto byte = f.put? (on.map f.fill) (p.onto byte) := by
  cases on with
  | none => rfl
  | some on => exact p.onto_flag f on byte

end Patch

theorem Brings.patch {p : Patch} (hp : p.Fits) (d : Device) {r : UInt8} (h : q.Spares r)
    (f : RegisterFile) (hosts : Nat → Bool) :
    Brings (p.apply d r) ⟨f, .always q, hosts⟩ [p.revision hp r] := by
  unfold Patch.apply
  split
  · rename_i hmask
    have hbits : p.bits = 0 := by
      have hfits := hp
      rw [Patch.Fits, hmask] at hfits
      simpa using hfits
    -- Without a mask there is no register to look at, and the revision holds anyway.
    have hv : (p.revision hp r).Holds f := by simp [Revision.Holds, Patch.revision, hmask, hbits]
    have hall : Revision.applyAll [p.revision hp r] f = f :=
      Revision.applyAll_of_holds (by simpa using hv)
    have hrun : MemoryChip.run ⟨f, .always q, hosts⟩ (Pure.pure Outcome.skipped : Access Outcome) =
        ⟨.ok (.ok .skipped), [], ⟨Revision.applyAll [p.revision hp r] f, .always q, hosts⟩⟩ := by
      rw [hall, MemoryChip.run_pure]
    exact of_run_eq hrun fun _ => rfl
  · exact (Brings.update d (p.revision hp r) h f hosts).map _

/-- A pass whose groups come to revisions comes to all of them in order. What the groups rely on
is to be left alone by every revision. -/
theorem Passes.of_brings {gs : List Group} {vss : List (List Revision)} {ok : RegisterFile → Prop}
    (h : List.Forall₂ (fun g vs => ∀ f, ok f → Brings g.action ⟨f, .always q, hosts⟩ vs) gs vss)
    (keep : ∀ v ∈ vss.flatten, ∀ f, ok f → ok (v.apply f)) {f : RegisterFile} (hf : ok f) :
    ∃ results writes, Passes gs ⟨f, .always q, hosts⟩ results writes
        ⟨Revision.applyAll vss.flatten f, .always q, hosts⟩ ∧
      ((∀ v ∈ vss.flatten, v.Holds f) → writes = []) := by
  induction h generalizing f with
  | nil => exact ⟨[], [], .nil _, fun _ => rfl⟩
  | @cons g vs gs vss hg _ ih =>
    rw [List.flatten_cons] at keep ⊢
    have hb := hg f hf
    obtain ⟨result, hr⟩ := hb.ends
    have hok : ok (Revision.applyAll vs f) :=
      Revision.applyAll_preserves (fun v hv => keep v (List.mem_append_left _ hv)) hf
    obtain ⟨results, writes, hp, hq⟩ :=
      ih (fun v hv => keep v (List.mem_append_right _ hv)) hok
    have first : MemoryChip.run ⟨f, .always q, hosts⟩ g.action =
        ⟨.ok result, (MemoryChip.run ⟨f, .always q, hosts⟩ g.action).events,
          ⟨Revision.applyAll vs f, .always q, hosts⟩⟩ := by
      rw [← hr, ← hb.board]
    have hpass := Passes.cons first hp
    rw [← Revision.applyAll_append] at hpass
    refine ⟨_, _, hpass, fun hv => ?_⟩
    have hvs : ∀ v ∈ vs, v.Holds f := fun v hm => hv v (List.mem_append_left _ hm)
    have hw : writes = [] := by
      apply hq
      intro v hm
      rw [Revision.applyAll_of_holds hvs]
      exact hv v (List.mem_append_right _ hm)
    rw [hw, List.append_nil]
    exact hb.quiet hvs

end Chip

end Bringup
