import Bringup.Proofs.Fields

/-! What of the chip a program has to do with. A covered program ends, changes nothing outside
of the fields it may write, and on a bus that never fails goes by its own fields alone. Programs
whose footprints are apart may be run in either order. -/
namespace Bringup

open Bench (MemoryChip RegisterFile)
open Chip (Access ChipError Device Field Group Outcome Patch Revision Tally)

/-! ## A bus that never fails -/

/-- A transfer that came back with an error. -/
def Event.failed : Event → Bool
  | ⟨.busRead _ _ _, .error _⟩ => true
  | ⟨.busWrite _ _ _, .error _⟩ => true
  | _ => false

namespace Bench.MemoryChip

theorem board_reliable (m : MemoryChip) (r : Request) :
    (board m.reliable r).2 = (board m.reliable r).2.reliable := by
  cases r <;> rfl

/-- Chips on buses that never fail differ in their registers or in what the detector says. -/
theorem eq_of_reliable {m n : MemoryChip} (hm : m = m.reliable) (hn : n = n.reliable)
    (registers : m.registers = n.registers) (hosts : m.hosts = n.hosts) : m = n := by
  rw [hm, hn, reliable, reliable, registers, hosts]

/-- A request that meets no failure is answered as on a reliable bus. -/
theorem board_of_unfailed {m : MemoryChip} {r : Request}
    (h : Event.failed ⟨r, (board m r).1⟩ = false) :
    board m.reliable r = ((board m r).1, (board m r).2.reliable) := by
  cases r with
  | busRead address start count =>
    cases hp : m.plan 0 start .read with
    | none => simp only [board, hp]; rfl
    | some code => simp [board, hp, Event.failed] at h
  | busWrite address start bytes =>
    cases hp : m.plan 0 start .write with
    | none => simp only [board, hp]; rfl
    | some code => simp [board, hp, Event.failed] at h
  | _ => rfl

end Bench.MemoryChip

namespace Program

variable {σ α β : Type}

namespace Run

/-- No transfer of the run failed. -/
def Unfailed (r : Run σ α) : Prop := ∀ e ∈ r.events, e.failed = false

theorem andThen_of_ok {r : Run σ α} {a : α} (h : r.outcome = .ok a) (next : α → σ → Run σ β) :
    r.andThen next = ⟨(next a r.board).outcome, r.events ++ (next a r.board).events,
      (next a r.board).board⟩ := by
  rw [andThen, h]

end Run

/-- A value at the end has one in the middle. -/
theorem outcome_bind {board : Board σ} {p : Program α} {f : α → Program β} {s : σ} {y : β}
    (h : ((p >>= f).run board s).outcome = .ok y) :
    ∃ x, (p.run board s).outcome = .ok x ∧
      ((f x).run board (p.run board s).board).outcome = .ok y := by
  rw [run_bind] at h
  cases hx : (p.run board s).outcome with
  | error c =>
    rw [Run.andThen, hx] at h
    cases h
  | ok x =>
    rw [Run.andThen_of_ok hx] at h
    exact ⟨x, rfl, h⟩

theorem run_ask (board : Board σ) (r : Request) (next : r.Answer → Program α) (s : σ) :
    (ask r next).run board s =
      ⟨((next (board s r).1).run board (board s r).2).outcome,
        ⟨r, (board s r).1⟩ :: ((next (board s r).1).run board (board s r).2).events,
        ((next (board s r).1).run board (board s r).2).board⟩ := rfl

/-- A bus that never fails does not begin to. -/
theorem run_reliable (p : Program α) (m : MemoryChip) :
    (p.run MemoryChip.board m.reliable).board =
      (p.run MemoryChip.board m.reliable).board.reliable := by
  induction p generalizing m with
  | done | fault => rfl
  | ask r next ih =>
    rw [run_ask, MemoryChip.board_reliable]
    exact ih _ _

theorem board_reliable (p : Program α) {m : MemoryChip} (h : m = m.reliable) :
    (p.run MemoryChip.board m).board = (p.run MemoryChip.board m).board.reliable := by
  rw [h]
  exact p.run_reliable m

/-- A run that met no failure is the run on a reliable bus. -/
theorem run_of_unfailed {p : Program α} {m : MemoryChip}
    (h : (p.run MemoryChip.board m).Unfailed) :
    p.run MemoryChip.board m.reliable = ⟨(p.run MemoryChip.board m).outcome,
      (p.run MemoryChip.board m).events, (p.run MemoryChip.board m).board.reliable⟩ := by
  induction p generalizing m with
  | done | fault => rfl
  | ask r next ih =>
    rw [run_ask] at h
    obtain ⟨hfirst, hrest⟩ := List.forall_mem_cons.mp h
    rw [run_ask, run_ask, MemoryChip.board_of_unfailed hfirst, ih _ hrest]

end Program

namespace Bench.MemoryChip

/-! ## Transfers that may fail -/

theorem run_readByte_any (m : MemoryChip) (d : Device) (r : UInt8) :
    ∃ result events, m.run (d.readByte r) = ⟨.ok result, events, m.next⟩ := by
  cases h : m.plan 0 r .read with
  | none => exact ⟨_, _, m.run_readByte_next d r h⟩
  | some code =>
    obtain ⟨line, hl⟩ := m.run_readByte_next_fails d r h
    exact ⟨_, _, hl⟩

theorem run_writeByte_any (m : MemoryChip) (d : Device) (r byte : UInt8) :
    ∃ result events m', m.run (d.writeByte r byte) = ⟨.ok result, events, m'⟩ ∧
      (m'.registers = m.registers ∨ m'.registers = m.registers.set r byte) ∧
      m'.hosts = m.hosts := by
  cases h : m.plan 0 r .write with
  | none => exact ⟨_, _, _, run_write m d r [byte] h, .inr rfl, rfl⟩
  | some code =>
    obtain ⟨line, hl⟩ := run_write_fails m d r [byte] h
    exact ⟨_, _, _, hl, .inl rfl, rfl⟩

/-- An update makes its revision or leaves the registers alone. -/
theorem run_update_any (m : MemoryChip) (d : Device) (v : Revision) :
    ∃ result events m', m.run (d.update v.field v.bits) = ⟨.ok result, events, m'⟩ ∧
      (m'.registers = m.registers ∨ m'.registers = v.apply m.registers) ∧ m'.hosts = m.hosts := by
  have h := Chip.updateRun d v m
  generalize m.run (d.update v.field v.bits) = run at h ⊢
  cases h with
  | unread code line => exact ⟨_, _, _, rfl, .inl rfl, rfl⟩
  | unchanged holds => exact ⟨_, _, _, rfl, .inl rfl, rfl⟩
  | unwritten holds code line => exact ⟨_, _, _, rfl, .inl rfl, rfl⟩
  | written holds => exact ⟨_, _, _, rfl, .inr rfl, rfl⟩

end Bench.MemoryChip

/-- A counted result is one more. -/
theorem Chip.Tally.total_of_record {t t' : Tally} (room : t.total < 255) {group : String}
    {result : Except ChipError Outcome} {m : MemoryChip}
    (h : ((t.record group result).run MemoryChip.board m).outcome = .ok t') :
    t'.total = t.total + 1 := by
  obtain ⟨events, hrun, -⟩ := Tally.record_run room group result m
  rw [hrun] at h
  obtain rfl := Except.ok.inj h
  exact Tally.total_tick room result

/-- A pass counts each of its groups once. -/
theorem Chip.Tally.total_of_runGroups {groups : List Group} {t t' : Tally}
    (room : t.total + groups.length ≤ 255) {m : MemoryChip}
    (h : ((t.runGroups groups).run MemoryChip.board m).outcome = .ok t') :
    t'.total = t.total + groups.length := by
  induction groups generalizing t m with
  | nil =>
    obtain rfl := Except.ok.inj h
    rfl
  | cons g gs ih =>
    rw [List.length_cons] at room ⊢
    change (((g.action.run >>= t.record g.name) >>= fun t => t.runGroups gs).run MemoryChip.board
      m).outcome = _ at h
    rw [bind_assoc] at h
    obtain ⟨result, -, h⟩ := Program.outcome_bind h
    obtain ⟨t₁, ht₁, h⟩ := Program.outcome_bind h
    have one := Tally.total_of_record (by omega) ht₁
    have rest := ih (by omega) h
    omega

/-! ## Footprints -/

/-- The fields a program may write and those it may look at besides, and whether it asks for a
host. What it may write it may look at as well. -/
structure Footprint where
  writes : List Field
  looks : List Field
  asks : Bool
  deriving DecidableEq, Repr

namespace Footprint

def reads (a : Footprint) : List Field := a.writes ++ a.looks

theorem inside_reads (a : Footprint) {f : Field} (h : f.Inside a.writes) : f.Inside a.reads := by
  obtain ⟨b, hb, hinside⟩ := h
  exact ⟨b, List.mem_append_left _ hb, hinside⟩

/-- Nothing but the fields. -/
def ofFields (fields : List Field) : Footprint := ⟨fields, [], false⟩

@[simp]
theorem ofFields_reads (fields : List Field) : (ofFields fields).reads = fields :=
  List.append_nil fields

/-- Chips that look the same within the footprint. -/
structure Agree (a : Footprint) (m n : MemoryChip) : Prop where
  registers : RegisterFile.AgreeOn a.reads m.registers n.registers
  hosts : a.asks = true → m.hosts = n.hosts

/-- Chips that differ only where the footprint lets a program write. -/
structure Spares (a : Footprint) (m n : MemoryChip) : Prop where
  registers : RegisterFile.AgreeOutside a.writes m.registers n.registers
  hosts : a.asks = false → m.hosts = n.hosts

/-- Neither writes what the other looks at, and at most one of them asks for a host. -/
structure Apart (a b : Footprint) : Prop where
  left : ∀ f ∈ a.writes, ∀ g ∈ b.reads, f.Apart g
  right : ∀ f ∈ b.writes, ∀ g ∈ a.reads, f.Apart g
  hosts : a.asks = true → b.asks = false

/-- Whatever the one covers, the other covers as well. -/
structure Part (a b : Footprint) : Prop where
  writes : ∀ f ∈ a.writes, f.Inside b.writes
  reads : ∀ f ∈ a.reads, f.Inside b.reads
  asks : a.asks = true → b.asks = true

instance (a b : Footprint) : Decidable (a.Apart b) :=
  decidable_of_iff ((∀ f ∈ a.writes, ∀ g ∈ b.reads, f.Apart g) ∧
      (∀ f ∈ b.writes, ∀ g ∈ a.reads, f.Apart g) ∧ (a.asks = true → b.asks = false))
    ⟨fun ⟨left, right, hosts⟩ => ⟨left, right, hosts⟩, fun h => ⟨h.left, h.right, h.hosts⟩⟩

instance (a b : Footprint) : Decidable (a.Part b) :=
  decidable_of_iff ((∀ f ∈ a.writes, f.Inside b.writes) ∧ (∀ f ∈ a.reads, f.Inside b.reads) ∧
      (a.asks = true → b.asks = true))
    ⟨fun ⟨writes, reads, asks⟩ => ⟨writes, reads, asks⟩, fun h => ⟨h.writes, h.reads, h.asks⟩⟩

variable {a b : Footprint} {m n k : MemoryChip}

theorem Agree.refl (a : Footprint) (m : MemoryChip) : a.Agree m m := ⟨.refl _ _, fun _ => rfl⟩

/-- What the bus has in store is no part of a footprint. -/
theorem agree_reliable (a : Footprint) (m : MemoryChip) : a.Agree m m.reliable :=
  ⟨.refl _ _, fun _ => rfl⟩

theorem Agree.symm (h : a.Agree m n) : a.Agree n m :=
  ⟨h.registers.symm, fun ha => (h.hosts ha).symm⟩

theorem Agree.trans (h : a.Agree m n) (h' : a.Agree n k) : a.Agree m k :=
  ⟨h.registers.trans h'.registers, fun ha => (h.hosts ha).trans (h'.hosts ha)⟩

theorem Agree.writes (h : a.Agree m n) :
    RegisterFile.AgreeOn a.writes m.registers n.registers :=
  fun f hf => h.registers f (List.mem_append_left _ hf)

theorem Agree.reliable (h : a.Agree m n) : a.Agree m.reliable n.reliable := ⟨h.registers, h.hosts⟩

theorem Spares.refl (a : Footprint) (m : MemoryChip) : a.Spares m m := ⟨.refl _ _, fun _ => rfl⟩

theorem Spares.trans (h : a.Spares m n) (h' : a.Spares n k) : a.Spares m k :=
  ⟨h.registers.trans h'.registers, fun ha => (h.hosts ha).trans (h'.hosts ha)⟩

theorem Apart.symm (h : a.Apart b) : b.Apart a where
  left := h.right
  right := h.left
  hosts := by
    intro hb
    cases ha : a.asks with
    | false => rfl
    | true => exact absurd (h.hosts ha) (by simp [hb])

/-- What one footprint changes, a footprint apart from it does not see. -/
theorem Spares.agree (h : a.Spares m n) (apart : a.Apart b) : b.Agree m n where
  registers := h.registers.agreeOn apart.left
  hosts := fun hb => h.hosts (apart.symm.hosts hb)

theorem Spares.mono (h : a.Spares m n) (part : a.Part b) : b.Spares m n where
  registers := h.registers.mono part.writes
  hosts := by
    intro hb
    apply h.hosts
    cases ha : a.asks with
    | false => rfl
    | true => exact absurd (part.asks ha) (by simp [hb])

theorem Agree.mono (h : b.Agree m n) (part : a.Part b) : a.Agree m n where
  registers := h.registers.mono part.reads
  hosts := fun ha => h.hosts (part.asks ha)

/-- Chips that look the same within two footprints, and differ from one chip nowhere else. -/
theorem registers_eq (ha : a.Agree m n) (hb : b.Agree m n)
    (elsewhere : ∀ r, ∀ i < 8, ¬ Field.Cover a.writes r i → ¬ Field.Cover b.writes r i →
      Chip.bit (m.get r) i = Chip.bit (n.get r) i) : m.registers = n.registers := by
  have reads {c : Footprint} {r : UInt8} {i : Nat} (h : Field.Cover c.writes r i) :
      Field.Cover c.reads r i := by
    obtain ⟨f, hf, hreg, hbit⟩ := h
    exact ⟨f, List.mem_append_left _ hf, hreg, hbit⟩
  apply RegisterFile.ext
  intro r
  apply Chip.bit_ext
  intro i hi
  by_cases hwa : Field.Cover a.writes r i
  · exact RegisterFile.agreeOn_iff.mp ha.registers r i hi (reads hwa)
  · by_cases hwb : Field.Cover b.writes r i
    · exact RegisterFile.agreeOn_iff.mp hb.registers r i hi (reads hwb)
    · exact elsewhere r i hi hwa hwb

/-- Chips that agree on more than the footprint still do after changes within it. -/
theorem Agree.widen {m' n' : MemoryChip} (h : b.Agree m n) (h' : a.Agree m' n')
    (left : a.Spares m m') (right : a.Spares n n') : b.Agree m' n' where
  registers := by
    rw [RegisterFile.agreeOn_iff]
    intro r i hi hr
    by_cases ha : Field.Cover a.writes r i
    · have reads : Field.Cover a.reads r i := by
        obtain ⟨f, hf, hreg, hbit⟩ := ha
        exact ⟨f, List.mem_append_left _ hf, hreg, hbit⟩
      exact RegisterFile.agreeOn_iff.mp h'.registers r i hi reads
    · rw [← left.registers r i hi ha, ← right.registers r i hi ha]
      exact RegisterFile.agreeOn_iff.mp h.registers r i hi hr
  hosts := by
    intro hb
    cases ha : a.asks with
    | true => exact h'.hosts ha
    | false => rw [← left.hosts ha, ← right.hosts ha, h.hosts hb]

/-! ## Covered programs -/

variable {α β : Type}

/-- The program ends without a fault whatever the bus does, and keeps to the footprint. -/
structure Covers (a : Footprint) (p : Program α) : Prop where
  ends (m : MemoryChip) : ∃ x, (p.run MemoryChip.board m).outcome = .ok x
  spares (m : MemoryChip) : a.Spares m (p.run MemoryChip.board m).board
  follows {m n : MemoryChip} (h : a.Agree m n) :
    (p.run MemoryChip.board m.reliable).outcome = (p.run MemoryChip.board n.reliable).outcome ∧
    a.Agree (p.run MemoryChip.board m.reliable).board (p.run MemoryChip.board n.reliable).board

namespace Covers

theorem follows_of_runs {p : Program α} {x : α} {m' n' : MemoryChip} {events others : List Event}
    (hm : p.run MemoryChip.board m.reliable = ⟨.ok x, events, m'⟩)
    (hn : p.run MemoryChip.board n.reliable = ⟨.ok x, others, n'⟩) (agree : a.Agree m' n') :
    (p.run MemoryChip.board m.reliable).outcome = (p.run MemoryChip.board n.reliable).outcome ∧
    a.Agree (p.run MemoryChip.board m.reliable).board
      (p.run MemoryChip.board n.reliable).board := by
  rw [hm, hn]
  exact ⟨rfl, agree⟩

theorem mono {p : Program α} (h : a.Covers p) (part : a.Part b) : b.Covers p where
  ends := h.ends
  spares m := (h.spares m).mono part
  follows := by
    intro m n hb
    obtain ⟨outcome, after⟩ := h.follows (hb.mono part)
    exact ⟨outcome, hb.reliable.widen after (h.spares m.reliable) (h.spares n.reliable)⟩

/-- A program that does nothing to the chip and comes to one value. -/
theorem quiet {p : Program α} {x : α}
    (h : ∀ m, ∃ events, p.run MemoryChip.board m = ⟨.ok x, events, m⟩) : a.Covers p where
  ends m := by
    obtain ⟨events, hrun⟩ := h m
    exact ⟨x, by rw [hrun]⟩
  spares m := by
    obtain ⟨events, hrun⟩ := h m
    rw [hrun]
    exact .refl a m
  follows := by
    intro m n agree
    obtain ⟨events, hm⟩ := h m.reliable
    obtain ⟨others, hn⟩ := h n.reliable
    exact follows_of_runs hm hn agree.reliable

theorem pure (x : α) : a.Covers (Pure.pure x : Program α) := quiet fun _ => ⟨[], rfl⟩

theorem log (level : Log.Level) (text : String) : a.Covers (Program.log level text) :=
  quiet fun _ => ⟨_, rfl⟩

theorem wait (milliseconds : Nat) : a.Covers (Program.wait milliseconds) :=
  quiet fun _ => ⟨_, rfl⟩

/-- What follows need be covered only for the values that can come before it. -/
theorem bind {p : Program α} {f : α → Program β} (hp : a.Covers p)
    (hf : ∀ m x, (p.run MemoryChip.board m).outcome = .ok x → a.Covers (f x)) :
    a.Covers (p >>= f) where
  ends m := by
    obtain ⟨x, hx⟩ := hp.ends m
    rw [Program.run_bind, Program.Run.andThen_of_ok hx]
    exact (hf m x hx).ends _
  spares m := by
    obtain ⟨x, hx⟩ := hp.ends m
    rw [Program.run_bind, Program.Run.andThen_of_ok hx]
    exact (hp.spares m).trans ((hf m x hx).spares _)
  follows := by
    intro m n h
    obtain ⟨x, hx⟩ := hp.ends m.reliable
    obtain ⟨outcome, after⟩ := hp.follows h
    have rest := (hf _ x hx).follows after
    rw [← Program.run_reliable, ← Program.run_reliable] at rest
    rw [Program.run_bind, Program.run_bind, Program.Run.andThen_of_ok hx,
      Program.Run.andThen_of_ok (outcome ▸ hx)]
    exact rest

theorem map {p : Program α} (hp : a.Covers p) (g : α → β) : a.Covers (g <$> p) := by
  rw [map_eq_pure_bind]
  exact hp.bind fun _ x _ => .pure (g x)

/-- Arithmetic that comes to something asks nothing of the chip. -/
theorem checked {c : Checked α} {x : α} (h : c = .ok x) : a.Covers (liftM c : Program α) := by
  subst h
  exact .pure x

theorem detectHost (asks : a.asks = true) (milliseconds : Nat) :
    a.Covers (Program.detectHost milliseconds) where
  ends m := ⟨m.hosts 0, rfl⟩
  spares m := ⟨.refl _ _, fun never => by simp [asks] at never⟩
  follows := by
    intro m n h
    have hosts := h.hosts asks
    refine ⟨?_, h.registers, fun _ => ?_⟩
    · change Except.ok (m.hosts 0) = Except.ok (n.hosts 0)
      rw [hosts]
    · change (fun k => m.hosts (k + 1)) = fun k => n.hosts (k + 1)
      rw [hosts]

theorem forM {xs : List α} {f : α → Program Unit} (h : ∀ x ∈ xs, a.Covers (f x)) :
    a.Covers (xs.forM f) := by
  induction xs with
  | nil => exact .pure ()
  | cons x xs ih =>
    obtain ⟨hx, hxs⟩ := List.forall_mem_cons.mp h
    exact hx.bind fun _ _ _ => ih hxs

theorem mapM {xs : List α} {f : α → Program β} (h : ∀ x ∈ xs, a.Covers (f x)) :
    a.Covers (xs.mapM f) := by
  induction xs with
  | nil => exact .pure []
  | cons x xs ih =>
    obtain ⟨hx, hxs⟩ := List.forall_mem_cons.mp h
    rw [List.mapM_cons]
    exact hx.bind fun _ y _ => (ih hxs).bind fun _ ys _ => .pure (y :: ys)

/-- Covered programs that are apart come to the same in either order. -/
theorem commute {p : Program α} {q : Program β} (hp : a.Covers p) (hq : b.Covers q)
    (apart : a.Apart b) (m : MemoryChip) :
    let first := p.run MemoryChip.board m.reliable
    let second := q.run MemoryChip.board m.reliable
    (q.run MemoryChip.board first.board).outcome = second.outcome ∧
    (p.run MemoryChip.board second.board).outcome = first.outcome ∧
    (q.run MemoryChip.board first.board).board = (p.run MemoryChip.board second.board).board := by
  intro first second
  have hfirst : first.board = first.board.reliable := p.run_reliable m
  have hsecond : second.board = second.board.reliable := q.run_reliable m
  have spares₁ : a.Spares m.reliable first.board := hp.spares m.reliable
  have spares₂ : b.Spares m.reliable second.board := hq.spares m.reliable
  obtain ⟨outcome₂, after₂⟩ := hq.follows (spares₁.agree apart).symm
  obtain ⟨outcome₁, after₁⟩ := hp.follows (spares₂.agree apart.symm).symm
  have late₂ := hq.spares first.board
  have late₁ := hp.spares second.board
  rw [← hfirst] at outcome₂ after₂
  rw [← hsecond] at outcome₁ after₁
  refine ⟨outcome₂, outcome₁, ?_⟩
  -- Both orders leave what the first would alone, and what the second would alone.
  have agree₂ : b.Agree (q.run MemoryChip.board first.board).board
      (p.run MemoryChip.board second.board).board :=
    after₂.trans (late₁.agree apart)
  have agree₁ : a.Agree (q.run MemoryChip.board first.board).board
      (p.run MemoryChip.board second.board).board :=
    (late₂.agree apart.symm).symm.trans after₁.symm
  have registers := registers_eq agree₁ agree₂ fun r i hi ha hb =>
    calc Chip.bit ((q.run MemoryChip.board first.board).board.registers.get r) i
      _ = Chip.bit (first.board.registers.get r) i := (late₂.registers r i hi hb).symm
      _ = Chip.bit (m.registers.get r) i := (spares₁.registers r i hi ha).symm
      _ = Chip.bit (second.board.registers.get r) i := spares₂.registers r i hi hb
      _ = Chip.bit ((p.run MemoryChip.board second.board).board.registers.get r) i :=
        late₁.registers r i hi ha
  have hosts : (q.run MemoryChip.board first.board).board.hosts =
      (p.run MemoryChip.board second.board).board.hosts := by
    cases ha : a.asks with
    | true => exact agree₁.hosts ha
    | false =>
      cases hb : b.asks with
      | true => exact agree₂.hosts hb
      | false =>
        rw [← late₂.hosts hb, ← spares₁.hosts ha, ← late₁.hosts ha, ← spares₂.hosts hb]
  exact MemoryChip.eq_of_reliable (q.board_reliable hfirst) (p.board_reliable hsecond) registers
    hosts

/-! ## Accesses

An access is covered by way of its run, in which an error is a value like any other. -/

theorem returns (x : α) : a.Covers (Pure.pure x : Access α).run :=
  Covers.pure (Except.ok x)

theorem throws (e : ChipError) : a.Covers (throw e : Access α).run :=
  Covers.pure (Except.error e)

theorem andThen {p : Access α} {f : α → Access β} (hp : a.Covers p.run)
    (hf : ∀ x, a.Covers (f x).run) : a.Covers (p >>= f).run := by
  rw [ExceptT.run_bind]
  refine hp.bind fun _ result _ => ?_
  cases result with
  | ok x => exact hf x
  | error e => exact .throws e

theorem lift {p : Program α} (hp : a.Covers p) : a.Covers (liftM p : Access α).run :=
  hp.map Except.ok

/-- What is done with the result takes no transfer. -/
theorem result {p : Access α} (hp : a.Covers p.run) (g : α → β) : a.Covers (g <$> p).run := by
  rw [map_eq_pure_bind]
  exact hp.andThen fun x => .returns (g x)

theorem each {xs : List α} {f : α → Access Unit} (h : ∀ x ∈ xs, a.Covers (f x).run) :
    a.Covers (xs.forM f).run := by
  induction xs with
  | nil => exact .returns ()
  | cons x xs ih =>
    obtain ⟨hx, hxs⟩ := List.forall_mem_cons.mp h
    exact hx.andThen fun _ => ih hxs

theorem collect {xs : List α} {f : α → Access β} (h : ∀ x ∈ xs, a.Covers (f x).run) :
    a.Covers (xs.mapM f).run := by
  induction xs with
  | nil => exact .returns []
  | cons x xs ih =>
    obtain ⟨hx, hxs⟩ := List.forall_mem_cons.mp h
    rw [List.mapM_cons]
    exact hx.andThen fun y => (ih hxs).andThen fun ys => .returns (y :: ys)

/-- Looking at a register needs all of it. -/
theorem readByte (d : Device) {r : UInt8} (h : (Field.whole r).Inside a.reads) :
    a.Covers (d.readByte r).run where
  ends m := by
    obtain ⟨result, events, hrun⟩ := m.run_readByte_any d r
    exact ⟨result, congrArg Program.Run.outcome hrun⟩
  spares m := by
    obtain ⟨result, events, hrun⟩ := m.run_readByte_any d r
    rw [show (d.readByte r).run.run MemoryChip.board m = _ from hrun]
    exact ⟨.refl _ _, fun _ => rfl⟩
  follows := by
    intro m n agree
    have spared : Bench.Faults.none r .read = none := rfl
    have hm := MemoryChip.run_readByte d spared m.registers m.hosts
    have hn := MemoryChip.run_readByte d spared n.registers n.hosts
    rw [agree.registers.get_eq h] at hm
    exact follows_of_runs hm hn agree.reliable

theorem writeByte (d : Device) {r : UInt8} (h : (Field.whole r).Inside a.writes) (byte : UInt8) :
    a.Covers (d.writeByte r byte).run where
  ends m := by
    obtain ⟨result, events, m', hrun, -⟩ := m.run_writeByte_any d r byte
    exact ⟨result, congrArg Program.Run.outcome hrun⟩
  spares m := by
    obtain ⟨result, events, m', hrun, hregisters, hhosts⟩ := m.run_writeByte_any d r byte
    rw [show (d.writeByte r byte).run.run MemoryChip.board m = _ from hrun]
    refine ⟨?_, fun _ => hhosts.symm⟩
    rcases hregisters with same | set
    · rw [same]
      exact .refl _ _
    · rw [set]
      exact RegisterFile.agreeOutside_set h m.registers byte
  follows := by
    intro m n agree
    have spared : Bench.Faults.none r .write = none := rfl
    have hm := MemoryChip.run_writeByte d byte spared m.registers m.hosts
    have hn := MemoryChip.run_writeByte d byte spared n.registers n.hosts
    exact follows_of_runs hm hn ⟨agree.registers.set r byte, agree.hosts⟩

theorem revision (d : Device) {v : Revision} (h : v.field.Inside a.writes) :
    a.Covers (d.update v.field v.bits).run where
  ends m := by
    obtain ⟨result, events, m', hrun, -⟩ := m.run_update_any d v
    exact ⟨result, congrArg Program.Run.outcome hrun⟩
  spares m := by
    obtain ⟨result, events, m', hrun, hregisters, hhosts⟩ := m.run_update_any d v
    rw [show (d.update v.field v.bits).run.run MemoryChip.board m = _ from hrun]
    refine ⟨?_, fun _ => hhosts.symm⟩
    rcases hregisters with same | revised
    · rw [same]
      exact .refl _ _
    · rw [revised]
      exact RegisterFile.agreeOutside_apply h m.registers
  follows := by
    intro m n agree
    have reads : v.field.Inside a.reads := a.inside_reads h
    have spared : Bench.Faults.none.Spares v.field.register := Bench.Faults.none_spares _
    have same := agree.registers.holds_iff reads
    by_cases hm : v.Holds m.registers
    · have hn := same.mp hm
      exact follows_of_runs (Chip.run_update_of_holds d spared hm)
        (Chip.run_update_of_holds d spared hn) agree.reliable
    · have hn := mt same.mpr hm
      exact follows_of_runs (Chip.run_update_of_not_holds d spared hm)
        (Chip.run_update_of_not_holds d spared hn) ⟨agree.registers.apply v, agree.hosts⟩

/-- An update looks at no more of the register than it may write. -/
theorem update (d : Device) {f : Field} (h : f.Inside a.writes) (bits : UInt8) :
    a.Covers (d.update f bits).run := by
  by_cases fits : bits &&& ~~~f.mask = 0
  · obtain ⟨v, rfl, rfl⟩ : ∃ v : Revision, v.field = f ∧ v.bits = bits :=
      ⟨⟨f, bits, fits⟩, rfl, rfl⟩
    exact revision d h
  · rw [Device.update, if_pos fits]
    exact .throws .invalidInput


theorem patch (d : Device) (p : Patch) {r : UInt8} (h : (⟨r, p.mask⟩ : Field).Inside a.writes) :
    a.Covers (p.apply d r).run := by
  unfold Patch.apply
  split
  · exact .returns Outcome.skipped
  · exact (Covers.update d h p.bits).result Outcome.ofWritten

/-! ## Passes over groups -/

theorem record {t : Tally} (room : t.total < 255) (group : String)
    (result : Except ChipError Outcome) : a.Covers (t.record group result) := by
  have hrun (m : MemoryChip) : ∃ events,
      (t.record group result).run MemoryChip.board m = ⟨.ok (t.tick result), events, m⟩ := by
    obtain ⟨events, h, -⟩ := Tally.record_run room group result m
    exact ⟨events, h⟩
  exact quiet hrun

/-- A pass is covered by what covers each of its groups, as long as the counters have room. -/
theorem runGroups {groups : List Group} (h : ∀ g ∈ groups, a.Covers g.action.run) {t : Tally}
    (room : t.total + groups.length ≤ 255) : a.Covers (t.runGroups groups) := by
  induction groups generalizing t with
  | nil => exact .pure t
  | cons g gs ih =>
    obtain ⟨hg, hgs⟩ := List.forall_mem_cons.mp h
    rw [List.length_cons] at room
    change a.Covers ((g.action.run >>= t.record g.name) >>= fun t => t.runGroups gs)
    rw [bind_assoc]
    refine hg.bind fun _ result _ => (record (by omega) g.name result).bind fun m t' ht => ?_
    have total := Tally.total_of_record (by omega) ht
    exact ih hgs (by omega)

/-- Groups each covered by a part of the footprint. -/
theorem of_parts {groups : List Group} {parts : List Footprint}
    (h : List.Forall₂ (fun g b => Covers b g.action.run) groups parts)
    (part : ∀ b ∈ parts, b.Part a) : ∀ g ∈ groups, a.Covers g.action.run := by
  induction h with
  | nil => exact fun _ hg => absurd hg List.not_mem_nil
  | cons hg _ ih =>
    obtain ⟨hb, hbs⟩ := List.forall_mem_cons.mp part
    exact List.forall_mem_cons.mpr ⟨hg.mono hb, ih hbs⟩

end Covers

end Footprint

end Bringup
