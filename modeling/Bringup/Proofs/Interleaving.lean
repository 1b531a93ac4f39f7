import Bringup.Proofs.ChargerFootprint
import Bringup.Proofs.PmicFootprint

/-! The charger and the rest of the power chip are driven by two front-ends over one bus. Their
calls may be mixed in any way without either noticing. -/
namespace Bringup

open Bench (MemoryChip)
open Chip (ChipError Device)

/-- The program ends with the value and leaves the chip behind. -/
structure Program.Yields {α : Type} (p : Program α) (m : MemoryChip) (x : α) (m' : MemoryChip) :
    Prop where
  outcome : (p.run MemoryChip.board m).outcome = .ok x
  board : (p.run MemoryChip.board m).board = m'

namespace Program.Yields

variable {α β : Type} {m m' m'' : MemoryChip}

theorem bind {p : Program α} {f : α → Program β} {x : α} {y : β} (first : p.Yields m x m')
    (rest : (f x).Yields m' y m'') : (p >>= f).Yields m y m'' := by
  have hrun := Run.andThen_of_ok first.outcome fun x s => (f x).run MemoryChip.board s
  rw [← run_bind, first.board] at hrun
  constructor
  · rw [hrun]
    exact rest.outcome
  · rw [hrun]
    exact rest.board

theorem mapM_cons {f : α → Program β} {x : α} {xs : List α} {y : β} {ys : List β}
    (first : (f x).Yields m y m') (rest : (xs.mapM f).Yields m' ys m'') :
    ((x :: xs).mapM f).Yields m (y :: ys) m'' := by
  rw [List.mapM_cons]
  exact first.bind (rest.bind ⟨rfl, rfl⟩)

theorem map {p : Program α} {x : α} (h : p.Yields m x m') (g : α → β) :
    (g <$> p).Yields m (g x) m' := by
  rw [map_eq_pure_bind]
  exact h.bind ⟨rfl, rfl⟩

end Program.Yields

/-- Every field of the charger is apart from every field of the rails and the chip's settings. -/
theorem pmic_apart_charger : Pmic.footprint.Apart Charger.footprint := by decide +kernel

namespace FrontEnds

/-- A call of the one front-end or the other. -/
abbrev Call := Pmic.Operation ⊕ Charger.Operation

abbrev Reply := Except ChipError Pmic.Reply ⊕ Except ChipError Charger.Reply

def perform (d : Device) (c : Charger) : Call → Program Reply
  | .inl op => .inl <$> (op.perform d).run
  | .inr op => .inr <$> (op.perform c).run

def performPmic (d : Device) (ops : List Pmic.Operation) :
    Program (List (Except ChipError Pmic.Reply)) :=
  ops.mapM fun op => (op.perform d).run

def performCharger (c : Charger) (ops : List Charger.Operation) :
    Program (List (Except ChipError Charger.Reply)) :=
  ops.mapM fun op => (op.perform c).run

variable {d : Device} {c : Charger}

theorem covers_performPmic (d : Device) (ops : List Pmic.Operation) :
    Pmic.footprint.Covers (performPmic d ops) :=
  .mapM fun op _ => Pmic.covers_perform d op

/-- A call of the charger may wait until all calls of the other front-end are through. -/
theorem charger_call_waits (hs : c.settings.Encodable) (op : Charger.Operation)
    (ops : List Pmic.Operation) {m m₁ m₂ : MemoryChip} (reliable : m = m.reliable)
    {reply : Except ChipError Charger.Reply} {replies : List (Except ChipError Pmic.Reply)}
    (first : (op.perform c).run.Yields m reply m₁)
    (rest : (performPmic d ops).Yields m₁ replies m₂) :
    ∃ m', (performPmic d ops).Yields m replies m' ∧ (op.perform c).run.Yields m' reply m₂ := by
  obtain ⟨reply_eq, replies_eq, board_eq⟩ :=
    (covers_performPmic d ops).commute (Charger.covers_perform hs op) pmic_apart_charger m
  rw [← reliable] at reply_eq replies_eq board_eq
  rw [first.board, rest.outcome] at replies_eq
  rw [first.board, rest.board] at board_eq
  rw [first.outcome] at reply_eq
  exact ⟨_, ⟨replies_eq.symm, rfl⟩, reply_eq, board_eq⟩

/-- However the calls of both front-ends are mixed, every call gets the reply that it gets when
all calls of the one are made before all calls of the other, and the chip is left the same. -/
theorem calls_independent (d : Device) (hs : c.settings.Encodable) (calls : List Call)
    (f : Bench.RegisterFile) (hosts : Nat → Bool) :
    let m : MemoryChip := ⟨f, .never, hosts⟩
    ∃ replies middle final,
      (calls.mapM (perform d c)).Yields m replies final ∧
      calls.map Sum.isLeft = replies.map Sum.isLeft ∧
      (performPmic d (calls.filterMap Sum.getLeft?)).Yields m
        (replies.filterMap Sum.getLeft?) middle ∧
      (performCharger c (calls.filterMap Sum.getRight?)).Yields middle
        (replies.filterMap Sum.getRight?) final := by
  intro m
  have reliable : m = m.reliable := rfl
  clear_value m
  induction calls generalizing m with
  | nil => exact ⟨[], m, m, ⟨rfl, rfl⟩, rfl, ⟨rfl, rfl⟩, rfl, rfl⟩
  | cons call calls ih =>
    cases call with
    | inl op =>
      obtain ⟨reply, hreply⟩ := (Pmic.covers_perform d op).ends m
      have first : (op.perform d).run.Yields m reply _ := ⟨hreply, rfl⟩
      obtain ⟨replies, middle, final, hmixed, htags, hpmic, hcharger⟩ :=
        ih _ (Program.board_reliable _ reliable)
      exact ⟨.inl reply :: replies, middle, final, .mapM_cons (first.map Sum.inl) hmixed,
        congrArg (true :: ·) htags, .mapM_cons first hpmic, hcharger⟩
    | inr op =>
      obtain ⟨reply, hreply⟩ := (Charger.covers_perform hs op).ends m
      have first : (op.perform c).run.Yields m reply _ := ⟨hreply, rfl⟩
      obtain ⟨replies, middle, final, hmixed, htags, hpmic, hcharger⟩ :=
        ih _ (Program.board_reliable _ reliable)
      obtain ⟨m', hpmic', hlast⟩ := charger_call_waits hs op _ reliable first hpmic
      exact ⟨.inr reply :: replies, m', final, .mapM_cons (first.map Sum.inr) hmixed,
        congrArg (false :: ·) htags, hpmic', .mapM_cons hlast hcharger⟩

/-- A probe of either half with calls of the other around it. -/
theorem battery_calls_independent :
    let c := Charger.batteryBoard (some Charger.slope) 300 4000
    let calls : List Call :=
      [.inl (.setVoltage .dcdc1 3300), .inr .probe, .inl .initChip, .inr .report,
        .inl (.voltage .dcdc1)]
    let m : MemoryChip := ⟨.zero, .never, fun _ => true⟩
    c.settings.Encodable ∧
    ∃ replies middle final,
      (calls.mapM (perform .standard c)).Yields m replies final ∧
      calls.map Sum.isLeft = replies.map Sum.isLeft ∧
      (performPmic .standard (calls.filterMap Sum.getLeft?)).Yields m
        (replies.filterMap Sum.getLeft?) middle ∧
      (performCharger c (calls.filterMap Sum.getRight?)).Yields middle
        (replies.filterMap Sum.getRight?) final := by
  intro c calls m
  have hresistance : Charger.Resistance.encode (300 : Int32).toInt = .ok 0x117 := by decide
  have hcapacity : Charger.Capacity.encode (4000 : Int32).toInt = .ok 0xABB := by decide
  have hs : c.settings.Encodable :=
    Charger.Settings.encodable rfl hresistance rfl hcapacity
  exact ⟨hs, calls_independent .standard hs calls .zero fun _ => true⟩

end FrontEnds

end Bringup
