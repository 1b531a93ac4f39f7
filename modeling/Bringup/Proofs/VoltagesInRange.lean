import Bringup.Proofs.Interleaving
import Bringup.Proofs.RailSwitchOn

/-! Rails stay within their ranges. Of all that the two front-ends do on the chip, only setting the
voltage of a rail moves its selector, and it moves it to a voltage in range. -/
namespace Bringup

open Bench (MemoryChip RegisterFile)
open Bench.RegisterFile (AgreeOn)
open Chip

namespace Rail

/-! ## Selectors -/

/-- What the rail's voltage field holds. -/
def selector (r : Rail) (f : RegisterFile) : UInt8 :=
  f.get r.voltageField.register &&& r.voltageField.mask

/-- The selector stands for a voltage between the least and the greatest of the rail. -/
def InRange (r : Rail) (f : RegisterFile) : Prop :=
  ∃ mv, r.range.decode (r.selector f) = .ok mv ∧ r.range.least ≤ mv ∧ mv ≤ r.range.greatest

theorem VoltageRange.toNat_of_decode {range : VoltageRange} {code : UInt8} {mv : UInt16}
    (h : range.decode code = .ok mv) :
    mv.toNat = range.least.toNat + code.toNat * range.step.toNat := by
  unfold VoltageRange.decode Checked.half at h
  by_cases rise : code.toNat * range.step.toNat < UInt16.size
  · rw [if_pos rise] at h
    change (if _ < UInt16.size then _ else _) = _ at h
    rw [UInt16.toNat_ofNat_of_lt' rise] at h
    split at h
    · rename_i sum
      obtain rfl := Except.ok.inj h
      exact UInt16.toNat_ofNat_of_lt' sum
    · cases h
  · rw [if_neg rise] at h
    cases h

section
variable {r : Rail} {f g : RegisterFile}

theorem selector_congr (h : AgreeOn [r.voltageField] f g) : r.selector f = r.selector g :=
  h r.voltageField List.mem_cons_self

theorem inRange_congr (h : r.selector f = r.selector g) : r.InRange f ↔ r.InRange g := by
  rw [InRange, InRange, h]

/-- A voltage that a rail can be set to is rounded down, but never below the least. -/
theorem inRange_of_setTo {mv : Int32} (h : r.SetTo mv f) : r.InRange f := by
  obtain ⟨contains, steps⟩ := h
  obtain ⟨found, hfound⟩ := r.decode_ends (f.get r.voltageField.register)
  have value := VoltageRange.toNat_of_decode hfound
  rw [← VoltageRange.steps_eq contains, Int.natCast_inj] at steps
  rw [steps] at value
  have rounded : r.range.steps mv * r.range.step.toNat ≤ (mv.toInt - r.range.least.toNat).toNat :=
    Nat.div_mul_le_self _ _
  unfold VoltageRange.Contains at contains
  refine ⟨found, hfound, ?_, ?_⟩
  · rw [UInt16.le_iff_toNat_le]
    omega
  · rw [UInt16.le_iff_toNat_le]
    omega

/-- The voltage of a rail is that of its selector. -/
theorem voltage_outcome (d : Device) {m : MemoryChip} {mv : UInt16}
    (spared : m.plan 0 r.voltageField.register .read = none)
    (decoded : r.range.decode (r.selector m.registers) = .ok mv) :
    (m.run (r.voltage d)).outcome = .ok (.ok mv) := by
  have looked := m.run_readByte_next d r.voltageField.register spared
  have selected : r.range.decode (m.get r.voltageField.register &&& r.voltageField.mask) =
      .ok mv := decoded
  rw [voltage, MemoryChip.run_bind, looked, Program.Run.andThen_ok]
  dsimp only
  rw [selected]
  rfl

/-- Asked for the rail's voltage, the chip answers with one in range, or the transfer fails. -/
def ReadsInRange (d : Device) (r : Rail) (m : MemoryChip) : Prop :=
  ∃ result, (m.run (r.voltage d)).outcome = .ok result ∧
    (∀ mv, result = .ok mv → r.range.least ≤ mv ∧ mv ≤ r.range.greatest) ∧
    (m.plan 0 r.voltageField.register .read = none → ∃ mv, result = .ok mv)

theorem readsInRange (d : Device) {m : MemoryChip} (h : r.InRange m.registers) :
    r.ReadsInRange d m := by
  obtain ⟨mv, decoded, least, greatest⟩ := h
  cases hread : m.plan 0 r.voltageField.register .read with
  | none =>
    refine ⟨.ok mv, voltage_outcome d hread decoded, ?_, fun _ => ⟨mv, rfl⟩⟩
    intro mv' same
    obtain rfl := Except.ok.inj same
    exact ⟨least, greatest⟩
  | some code =>
    obtain ⟨line, unread⟩ := m.run_readByte_next_fails d r.voltageField.register hread
    refine ⟨_, by rw [voltage, MemoryChip.run_bind, unread, Program.Run.andThen_ok], ?_, ?_⟩
    · intro mv' same
      cases same
    · intro spared
      rw [hread] at spared
      cases spared

/-! ## Setting a voltage -/

/-- Setting the voltage succeeds on this chip, and there was something to write. -/
def Adjusts (d : Device) (r : Rail) (mv : Int32) (m : MemoryChip) : Prop :=
  (m.run (r.setVoltage d mv)).outcome = .ok (.ok true)

/-- Setting a voltage leaves the selector alone, or writes one in range. -/
theorem setVoltage_moves (d : Device) (r : Rail) (mv : Int32) (m : MemoryChip) :
    r.selector (m.run (r.setVoltage d mv)).board.registers = r.selector m.registers ∨
    r.Adjusts d mv m ∧ r.SetTo mv (m.run (r.setVoltage d mv)).board.registers := by
  unfold Adjusts
  by_cases contains : r.range.Contains mv
  · rw [setVoltage_inside contains, setTo_iff contains]
    have run := updateRun d (r.voltageRevision mv) m
    generalize m.run (d.update (r.voltageRevision mv).field (r.voltageRevision mv).bits) = result
      at run ⊢
    cases run with
    | unread code line => exact .inl rfl
    | unchanged holds => exact .inl rfl
    | unwritten holds code line => exact .inl rfl
    | written holds => exact .inr ⟨rfl, (r.voltageRevision mv).holds_apply m.registers⟩
  · rw [setVoltage_outside contains]
    exact .inl rfl

theorem applyVoltage_board (d : Device) (r : Rail) {s : Settings} {mv : Int32}
    (h : s.voltage = some mv) (m : MemoryChip) :
    (m.run (applyVoltage d r s)).board = (m.run (r.setVoltage d mv)).board := by
  have set : applyVoltage d r s = Outcome.ofWritten <$> r.setVoltage d mv := by
    rw [applyVoltage, h]
    rfl
  rw [set, MemoryChip.run_map]

/-! ## What leaves a selector alone -/

/-- Nothing the program may write is a bit of the rail's voltage field. -/
theorem selector_spared {α : Type} {a : Footprint} {p : Program α} (covers : a.Covers p)
    (apart : ∀ f ∈ a.writes, f.Apart r.voltageField) (m : MemoryChip) :
    r.selector (p.run MemoryChip.board m).board.registers = r.selector m.registers := by
  refine (selector_congr ((covers.spares m).registers.agreeOn fun f hf b hb => ?_)).symm
  obtain rfl := List.mem_singleton.mp hb
  exact apart f hf

theorem selector_afterGroups {gs : List Group} {parts : List Footprint}
    (covers : List.Forall₂ (fun g a => Footprint.Covers a g.action.run) gs parts)
    (apart : ∀ a ∈ parts, ∀ f ∈ a.writes, f.Apart r.voltageField) (m : MemoryChip) :
    r.selector (afterGroups gs m).registers = r.selector m.registers := by
  induction covers generalizing m with
  | nil => rfl
  | cons hg _ ih =>
    obtain ⟨ha, hrest⟩ := List.forall_mem_cons.mp apart
    exact (ih hrest _).trans (selector_spared hg ha m)

end

/-- No step of another rail has a bit of this rail's voltage. -/
theorem steps_spare_voltage {q r : Rail} (h : q ≠ r) :
    ∀ fs ∈ q.stepFields, ∀ f ∈ fs, f.Apart r.voltageField := by
  have every : ∀ q ∈ all, ∀ r ∈ all, q ≠ r →
      ∀ fs ∈ q.stepFields, ∀ f ∈ fs, f.Apart r.voltageField := by
    decide +kernel
  exact every q q.mem_all r r.mem_all h

/-- The steps after the first have nothing to do with any voltage. -/
theorem late_steps_spare_voltage (q r : Rail) :
    ∀ fs ∈ q.stepFields.tail, ∀ f ∈ fs, f.Apart r.voltageField := by
  have every : ∀ q ∈ all, ∀ r ∈ all, ∀ fs ∈ q.stepFields.tail, ∀ f ∈ fs,
      f.Apart r.voltageField := by
    decide +kernel
  exact every q q.mem_all r r.mem_all

/-- After all steps of a rail its selector is as the first step left it. -/
theorem selector_afterSteps (d : Device) (r : Rail) (s : Settings) (m : MemoryChip) :
    r.selector (afterGroups (groups d r s) m).registers =
      r.selector (m.run (applyVoltage d r s)).board.registers := by
  obtain ⟨-, covers⟩ := List.forall₂_cons.mp (r.covers_groups d s)
  refine selector_afterGroups covers ?_ _
  intro a ha f hf
  have later : a ∈ r.stepFields.tail.map Footprint.ofFields := ha
  obtain ⟨fs, hfs, rfl⟩ := List.mem_map.mp later
  exact late_steps_spare_voltage r r fs hfs f hf

/-- Steps of other rails in a pass over a table. -/
theorem selector_afterTable (d : Device) (table : Config.Table) {rails : List Rail} {r : Rail}
    (others : r ∉ rails) (m : MemoryChip) :
    r.selector (afterGroups (tableGroups d table rails) m).registers = r.selector m.registers := by
  refine selector_afterGroups (covers_table d table rails) ?_ m
  intro a ha f hf
  obtain ⟨fs, hfs, rfl⟩ := List.mem_map.mp ha
  obtain ⟨q, hq, hfs⟩ := List.mem_flatMap.mp ((tableFields_sublist table rails).subset hfs)
  have other : q ≠ r := fun same => others (same ▸ hq)
  exact steps_spare_voltage other fs hfs f hf

end Rail

namespace Charger

/-- The words of the gauge matter to a probe and to nothing else. -/
theorem perform_without_words (c : Charger) {op : Operation} (h : op ≠ .probe) :
    op.perform { c with settings := { c.settings with resistance := none, capacity := none } } =
      op.perform c := by
  cases op with
  | probe => exact absurd rfl h
  | _ => rfl

theorem covers_call {c : Charger} {op : Operation} (h : op = .probe → c.settings.Encodable) :
    footprint.Covers (op.perform c).run := by
  by_cases probing : op = .probe
  · exact covers_perform (h probing) op
  · rw [← perform_without_words c probing]
    exact covers_perform ⟨fun _ none => (by cases none), fun _ none => (by cases none)⟩ op

theorem spares_voltage (r : Rail) : ∀ f ∈ footprint.writes, f.Apart r.voltageField := by
  cases r <;> decide +kernel

end Charger

namespace Pmic

/-- The groups of a probe have nothing to do with the rails. -/
theorem groups_spare_voltage (r : Rail) :
    ∀ a ∈ groupFootprints, ∀ f ∈ a.writes, f.Apart r.voltageField := by
  cases r <;> decide +kernel

end Pmic

namespace FrontEnds

/-! ## Turns at the chip -/

/-- A front-end at the chip, and what it is asked to do there. -/
inductive Turn where
  | pmic (device : Device) (operation : Pmic.Operation)
  | charger (charger : Charger) (operation : Charger.Operation)

namespace Turn

def perform : Turn → Program Reply
  | pmic d op => .inl <$> (op.perform d).run
  | charger c op => .inr <$> (op.perform c).run

/-- Where a charger is probed, its words have codes. -/
def Encodable : Turn → Prop
  | pmic .. => True
  | charger c op => op = .probe → c.settings.Encodable

/-- The chip after the turn. -/
def after (turn : Turn) (m : MemoryChip) : MemoryChip := (turn.perform.run MemoryChip.board m).board

/-- The turn sets the rail to a voltage, directly or by applying a configuration, and finds the
chip in some state when it comes to that. -/
inductive Attempts (r : Rail) (m : MemoryChip) : Turn → Device → Int32 → MemoryChip → Prop
  | direct (d : Device) (mv : Int32) : Attempts r m (pmic d (.setVoltage r mv)) d mv m
  | rail (d : Device) (s : Rail.Settings) (mv : Int32) (voltage : s.voltage = some mv) :
      Attempts r m (pmic d (.applyRail r s)) d mv m
  | table (d : Device) (t : Config.Table) (s : Rail.Settings) (mv : Int32) {early late : List Rail}
      (place : Rail.all = early ++ r :: late) (node : Rail.Settings.ofTable? t r.name = some s)
      (voltage : s.voltage = some mv) :
      Attempts r m (pmic d (.applyRails t)) d mv (afterGroups (Rail.tableGroups d t early) m)

/-- The turn changes the rail's selector, by setting the rail to a voltage in range and by nothing
else. -/
structure Moves (turn : Turn) (r : Rail) (m : MemoryChip) (d : Device) (mv : Int32)
    (n : MemoryChip) : Prop where
  attempts : Attempts r m turn d mv n
  before : r.selector n.registers = r.selector m.registers
  adjusts : r.Adjusts d mv n
  voltage : r.SetTo mv (n.run (r.setVoltage d mv)).board.registers
  after : r.selector (turn.after m).registers =
    r.selector (n.run (r.setVoltage d mv)).board.registers

/-- The turn leaves the rail's selector alone or moves it. -/
def Accounts (turn : Turn) (r : Rail) (m : MemoryChip) : Prop :=
  r.selector (turn.after m).registers = r.selector m.registers ∨ ∃ d mv n, turn.Moves r m d mv n

variable {r : Rail} {m : MemoryChip}

/-- An attempt accounts for the selector where the rest of the turn leaves it alone. -/
theorem accounts_of_attempt {turn : Turn} {d : Device} {mv : Int32} {n : MemoryChip}
    (attempts : Attempts r m turn d mv n) (before : r.selector n.registers = r.selector m.registers)
    (after : r.selector (turn.after m).registers =
      r.selector (n.run (r.setVoltage d mv)).board.registers) : turn.Accounts r m := by
  rcases r.setVoltage_moves d mv n with same | ⟨adjusts, voltage⟩
  · left
    rw [after, same, before]
  · exact .inr ⟨d, mv, n, attempts, before, adjusts, voltage, after⟩

theorem accounts_of_spared {d : Device} {op : Pmic.Operation} {a : Footprint}
    (covers : a.Covers (op.perform d).run) (apart : ∀ f ∈ a.writes, f.Apart r.voltageField) :
    (pmic d op).Accounts r m :=
  .inl (Rail.selector_spared (covers.map _) apart m)

/-- What is made of the result does nothing to the chip. -/
theorem after_map {α : Type} {d : Device} {op : Pmic.Operation} {p : Access α}
    {g : α → Pmic.Reply} (h : op.perform d = g <$> p) (m : MemoryChip) :
    (pmic d op).after m = (m.run p).board := by
  change ((Sum.inl <$> (op.perform d).run).run MemoryChip.board m).board = _
  rw [Program.run_map, h]
  change (m.run (g <$> p)).board = _
  rw [MemoryChip.run_map]

theorem after_lift {α : Type} {d : Device} {op : Pmic.Operation} {p : Program α}
    {g : α → Pmic.Reply} (h : op.perform d = g <$> liftM p) (m : MemoryChip) :
    (pmic d op).after m = (p.run MemoryChip.board m).board := by
  rw [after_map h, MemoryChip.run_liftM]

/-- After its own steps the rail is at what its voltage step made of it. -/
theorem accounts_of_steps {turn : Turn} (d : Device) (s : Rail.Settings) (n : MemoryChip)
    (attempts : ∀ mv, s.voltage = some mv → Attempts r m turn d mv n)
    (before : r.selector n.registers = r.selector m.registers)
    (after : r.selector (turn.after m).registers =
      r.selector (afterGroups (Rail.groups d r s) n).registers) : turn.Accounts r m := by
  rw [Rail.selector_afterSteps] at after
  cases hv : s.voltage with
  | none =>
    left
    rw [after, ← before, Rail.applyVoltage, hv]
    rfl
  | some mv =>
    rw [Rail.applyVoltage_board d r hv] at after
    exact accounts_of_attempt (attempts mv hv) before after

theorem applyRail_accounts (d : Device) (q : Rail) (s : Rail.Settings) :
    (pmic d (.applyRail q s)).Accounts r m := by
  have steps : (pmic d (.applyRail q s)).after m = afterGroups (Rail.groups d q s) m := by
    rw [after_lift (p := q.apply d s) (g := Pmic.Reply.tally) rfl]
    exact (Rail.apply_through d q s m).board
  by_cases own : q = r
  · subst own
    exact accounts_of_steps d s m (.rail d s) rfl (by rw [steps])
  · left
    rw [steps]
    refine Rail.selector_afterGroups (q.covers_groups d s) ?_ m
    intro a ha f hf
    obtain ⟨fs, hfs, rfl⟩ := List.mem_map.mp ha
    exact Rail.steps_spare_voltage own fs hfs f hf

/-- Of a pass over the rails, only the part of the rail itself counts. -/
theorem applyRails_accounts (d : Device) (t : Config.Table) :
    (pmic d (.applyRails t)).Accounts r m := by
  obtain ⟨early, late, place⟩ := List.append_of_mem r.mem_all
  have alone : (early ++ r :: late).Nodup := place ▸ (by decide : Rail.all.Nodup)
  obtain ⟨-, alone_late, apart⟩ := List.nodup_append.mp alone
  have not_early : r ∉ early := fun he => apart r he r List.mem_cons_self rfl
  have not_late : r ∉ late := (List.nodup_cons.mp alone_late).1
  let n := afterGroups (Rail.tableGroups d t early) m
  have before : r.selector n.registers = r.selector m.registers :=
    Rail.selector_afterTable d t not_early m
  have pass : (pmic d (.applyRails t)).after m =
      afterGroups (Rail.tableGroups d t late) (afterGroups (Rail.configuredGroups d t r) n) := by
    rw [after_lift (p := Rail.applyAll d t) (g := Pmic.Reply.tally) rfl]
    refine (Rail.applyAll_through d t m).board.trans ?_
    rw [place, Rail.tableGroups, List.flatMap_append, List.flatMap_cons, afterGroups_append,
      afterGroups_append]
    rfl
  have after : r.selector ((pmic d (.applyRails t)).after m).registers =
      r.selector (afterGroups (Rail.configuredGroups d t r) n).registers := by
    rw [pass]
    exact Rail.selector_afterTable d t not_late _
  unfold Rail.configuredGroups at after
  cases node : Rail.Settings.ofTable? t r.name with
  | none =>
    rw [node] at after
    exact .inl (after.trans before)
  | some s =>
    rw [node] at after
    exact accounts_of_steps d s n (fun mv hv => .table d t s mv place node hv) before after

theorem pmic_accounts (d : Device) (op : Pmic.Operation) (r : Rail) (m : MemoryChip) :
    (pmic d op).Accounts r m := by
  have inside (f : Field) : f.Inside (Footprint.ofFields [f]).writes :=
    Field.inside_of_mem List.mem_cons_self
  have looks {r : UInt8} : (Field.whole r).Inside (Footprint.mk [] [.whole r] false).reads :=
    Field.inside_of_mem List.mem_cons_self
  have nothing {p : Field → Prop} : ∀ f ∈ ([] : List Field), p f :=
    fun _ hf => absurd hf List.not_mem_nil
  cases op with
  | probe s =>
    left
    rw [after_lift (p := Pmic.probe d s) (g := Pmic.Reply.tally) rfl,
      (Pmic.probe_through d s m).board]
    exact Rail.selector_afterGroups (Pmic.covers_groups d s) (Pmic.groups_spare_voltage r) m
  | initChip =>
    have part : Pmic.interruptFootprint ∈ Pmic.groupFootprints := by simp [Pmic.groupFootprints]
    exact accounts_of_spared (Footprint.Covers.result (Pmic.covers_initChip d) _)
      (Pmic.groups_spare_voltage r _ part)
  | setVoltage q mv =>
    by_cases own : q = r
    · subst own
      refine accounts_of_attempt (.direct d mv) rfl ?_
      rw [after_map (p := q.setVoltage d mv) (g := Pmic.Reply.wrote) rfl]
    · have covers := Rail.covers_setVoltage (inside q.voltageField) d mv
      have first : [q.voltageField] ∈ q.stepFields := List.mem_cons_self
      exact accounts_of_spared (covers.result _) (Rail.steps_spare_voltage own _ first)
  | voltage q => exact accounts_of_spared ((Rail.covers_voltage looks d).result _) nothing
  | enabled q =>
    have covers := Footprint.Covers.readByte d (looks (r := q.enableField.register))
    exact accounts_of_spared ((covers.result _).result _) nothing
  | setEnabled q on =>
    have covers := Footprint.Covers.update d (inside q.enableField) (q.enableField.fill on)
    have late : [q.enableField] ∈ q.stepFields.tail := by simp [Rail.stepFields]
    exact accounts_of_spared (covers.result _) (Rail.late_steps_spare_voltage q r _ late)
  | setForced q forced =>
    have covers := Rail.covers_setForced (a := .ofFields q.modeField?.toList)
      (fun f hf => Field.inside_of_mem (Option.mem_toList.mpr hf)) d forced
    have late : q.modeField?.toList ∈ q.stepFields.tail := List.mem_cons_self
    exact accounts_of_spared (covers.result _) (Rail.late_steps_spare_voltage q r _ late)
  | applyRail q s => exact applyRail_accounts d q s
  | applyRails t => exact applyRails_accounts d t

theorem accounts {turn : Turn} (h : turn.Encodable) (r : Rail) (m : MemoryChip) :
    turn.Accounts r m := by
  cases turn with
  | pmic d op => exact pmic_accounts d op r m
  | charger c op =>
    have covers : Charger.footprint.Covers (charger c op).perform := (Charger.covers_call h).map _
    exact .inl (Rail.selector_spared covers (Charger.spares_voltage r) m)

/-- One turn keeps a rail in its range. -/
theorem inRange_after {turn : Turn} (h : turn.Encodable) (start : r.InRange m.registers) :
    r.InRange (turn.after m).registers := by
  rcases accounts h r m with same | ⟨d, mv, n, moves⟩
  · exact (Rail.inRange_congr same).mpr start
  · exact (Rail.inRange_congr moves.after).mpr (Rail.inRange_of_setTo moves.voltage)

theorem yields {turn : Turn} (h : turn.Encodable) (m : MemoryChip) :
    ∃ reply, turn.perform.Yields m reply (turn.after m) := by
  cases turn with
  | pmic d op =>
    obtain ⟨reply, outcome⟩ := ((Pmic.covers_perform d op).map Sum.inl).ends m
    exact ⟨reply, outcome, rfl⟩
  | charger c op =>
    obtain ⟨reply, outcome⟩ := ((Charger.covers_call h).map Sum.inr).ends m
    exact ⟨reply, outcome, rfl⟩

end Turn

/-! ## Any number of turns -/

/-- The chip after turns taken one after another. -/
def afterTurns (turns : List Turn) (m : MemoryChip) : MemoryChip :=
  turns.foldl (fun m turn => turn.after m) m

variable {turns : List Turn}

theorem turns_yield (encodable : ∀ turn ∈ turns, turn.Encodable) (m : MemoryChip) :
    ∃ replies, (turns.mapM Turn.perform).Yields m replies (afterTurns turns m) := by
  induction turns generalizing m with
  | nil => exact ⟨[], rfl, rfl⟩
  | cons turn turns ih =>
    obtain ⟨hturn, hturns⟩ := List.forall_mem_cons.mp encodable
    obtain ⟨reply, first⟩ := Turn.yields hturn m
    obtain ⟨replies, rest⟩ := ih hturns (turn.after m)
    exact ⟨reply :: replies, .mapM_cons first rest⟩

theorem inRange_afterTurns (encodable : ∀ turn ∈ turns, turn.Encodable) {r : Rail} {m : MemoryChip}
    (start : r.InRange m.registers) : r.InRange (afterTurns turns m).registers := by
  induction turns generalizing m with
  | nil => exact start
  | cons turn turns ih =>
    obtain ⟨hturn, hturns⟩ := List.forall_mem_cons.mp encodable
    exact ih hturns (Turn.inRange_after hturn start)

/-- On a chip all of whose rails are in range, and on a bus that may fail at any transfer, any
turns of the two front-ends come to an end. Whenever the voltage of a rail is read on the way, it
is in range, and a turn that moves a selector does so by setting that rail to a voltage, and
succeeds in that. -/
theorem voltages_stay_in_range (turns : List Turn) (m : MemoryChip)
    (encodable : ∀ turn ∈ turns, turn.Encodable) (start : ∀ r : Rail, r.InRange m.registers) :
    (∃ replies, (turns.mapM Turn.perform).Yields m replies (afterTurns turns m)) ∧
    (∀ early late, turns = early ++ late → ∀ (r : Rail) (d : Device),
      r.ReadsInRange d (afterTurns early m)) ∧
    ∀ early turn late, turns = early ++ turn :: late → ∀ r : Rail,
      turn.Accounts r (afterTurns early m) := by
  refine ⟨turns_yield encodable m, ?_, ?_⟩
  · rintro early late rfl r d
    obtain ⟨hearly, -⟩ := List.forall_mem_append.mp encodable
    exact Rail.readsInRange d (inRange_afterTurns hearly (start r))
  · rintro early turn late rfl r
    obtain ⟨-, hrest⟩ := List.forall_mem_append.mp encodable
    exact Turn.accounts (hrest turn List.mem_cons_self) r (afterTurns early m)

/-- A converter is set and read back, a charger is probed, and a regulator refuses its voltage,
while every third transfer fails. -/
theorem converter_stays_in_range :
    let set : Turn := .pmic .standard (.setVoltage .dcdc2 1110)
    let board := Charger.batteryBoard (some Charger.slope) 300 4000
    let turns : List Turn := [set, .charger board .probe,
      .pmic .standard (.applyRail .aldo1 ⟨some 5000, some 1, none⟩),
      .pmic .standard (.voltage .dcdc2)]
    let m : MemoryChip :=
      ⟨.zero, fun n _ _ => if n % 3 = 2 then some 7 else none, fun _ => true⟩
    (∀ turn ∈ turns, turn.Encodable) ∧ (∀ r : Rail, r.InRange m.registers) ∧
    Rail.dcdc2.selector (set.after m).registers = 25 ∧
    (∃ replies, (turns.mapM Turn.perform).Yields m replies (afterTurns turns m)) ∧
    (∀ early late, turns = early ++ late → ∀ (r : Rail) (d : Device),
      r.ReadsInRange d (afterTurns early m)) ∧
    ∀ early turn late, turns = early ++ turn :: late → ∀ r : Rail,
      turn.Accounts r (afterTurns early m) := by
  intro set board turns m
  have hresistance : Charger.Resistance.encode (300 : Int32).toInt = .ok 0x117 := by decide
  have hcapacity : Charger.Capacity.encode (4000 : Int32).toInt = .ok 0xABB := by decide
  have encodable : ∀ turn ∈ turns, turn.Encodable := by
    simp only [turns, set, List.forall_mem_cons, Turn.Encodable, true_and]
    exact ⟨fun _ => Charger.Settings.encodable rfl hresistance rfl hcapacity,
      fun _ h => absurd h List.not_mem_nil⟩
  have start (r : Rail) : r.InRange m.registers := by
    have least : r.range.decode (r.selector m.registers) = .ok r.range.least := by
      cases r <;> decide
    exact ⟨r.range.least, least, UInt16.le_refl _, by cases r <;> decide⟩
  exact ⟨encodable, start, by decide +kernel, voltages_stay_in_range turns m encodable start⟩

end FrontEnds
end Bringup
