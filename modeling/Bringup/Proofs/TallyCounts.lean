import Bringup.Board.Power
import Bringup.Proofs.GroupDeeds
import Bringup.Proofs.Moments
import Bringup.Proofs.RailTarget

/-! The tally a pass comes to. It counts every group of the pass once, under the counter that says
what the group has done. -/
namespace Bringup

open Bench (MemoryChip RegisterFile)

namespace Chip

/-- The counter that a run goes to. A run that a fault ended goes nowhere. -/
def Counter.ofRun? (r : GroupRun) : Option Counter := r.outcome.toOption.map of

def Tally.reading (t : Tally) : Counter → UInt8
  | .written => t.written
  | .unchanged => t.unchanged
  | .skipped => t.skipped
  | .incomplete => t.incomplete
  | .failed => t.failed

/-- Each counter of the tally reads how many of the runs go there, and each run has done what its
counter stands for. -/
structure Counts (t : Tally) (runs : List GroupRun) : Prop where
  fits : ∀ r ∈ runs, ∃ k, Counter.ofRun? r = some k ∧ k.Fits r.events
  readings : ∀ k, (t.reading k).toNat = (runs.map Counter.ofRun?).count (some k)

theorem Fair.counted {g : Group} (h : Fair g.action) (m : MemoryChip) :
    ∃ result, (m.run g.action).outcome = .ok result ∧
      Counter.ofRun? (m.run g.action) = some (.of result) ∧
      (Counter.of result).Fits (m.run g.action).events := by
  obtain ⟨result, hrun, fits⟩ := h.run m
  exact ⟨result, hrun, by rw [Counter.ofRun?, hrun]; rfl, fits⟩

theorem Tally.reading_tick {t : Tally} (room : t.total < 255) (result : Except ChipError Outcome)
    (k : Counter) : ((t.tick result).reading k).toNat =
      (t.reading k).toNat + if Counter.of result = k then 1 else 0 := by
  unfold total at room
  rcases result with (_ | _ | _) | (_ | _ | _)
  all_goals
    cases k
    all_goals
      simp [tick, reading, Counter.of]
      try omega

namespace Counts

variable {t : Tally} {runs : List GroupRun}

theorem empty : Counts Tally.empty [] where
  fits _ hr := absurd hr List.not_mem_nil
  readings k := by cases k <;> rfl

/-- Nothing is counted but the runs. -/
theorem total (h : Counts t runs) : t.total = runs.length := by
  have somewhere (runs : List GroupRun)
      (h : ∀ r ∈ runs, ∃ k, Counter.ofRun? r = some k ∧ k.Fits r.events) :
      (runs.map Counter.ofRun?).count (some .written) +
        (runs.map Counter.ofRun?).count (some .unchanged) +
        (runs.map Counter.ofRun?).count (some .skipped) +
        (runs.map Counter.ofRun?).count (some .incomplete) +
        (runs.map Counter.ofRun?).count (some .failed) = runs.length := by
    induction runs with
    | nil => rfl
    | cons r runs ih =>
      obtain ⟨⟨k, hk, -⟩, hruns⟩ := List.forall_mem_cons.mp h
      have := ih hruns
      simp only [List.map_cons, List.length_cons, List.count_cons, hk]
      cases k <;> simp <;> omega
  rw [← somewhere runs h.fits, ← h.readings, ← h.readings, ← h.readings, ← h.readings,
    ← h.readings]
  rfl

theorem append {runs' : List GroupRun} {t t' sum : Tally} (h : Counts t runs)
    (h' : Counts t' runs')
    (readings : ∀ k, (sum.reading k).toNat = (t.reading k).toNat + (t'.reading k).toNat) :
    Counts sum (runs ++ runs') where
  fits r hr := (List.mem_append.mp hr).elim (h.fits r) (h'.fits r)
  readings k := by
    rw [readings, h.readings, h'.readings, List.map_append, List.count_append]

theorem snoc (h : Counts t runs) (room : runs.length < 255) {r : GroupRun}
    {result : Except ChipError Outcome} (hr : Counter.ofRun? r = some (.of result))
    (fits : (Counter.of result).Fits r.events) : Counts (t.tick result) (runs ++ [r]) where
  fits r' hr' := by
    rcases List.mem_append.mp hr' with hr' | hr'
    · exact h.fits r' hr'
    · obtain rfl := List.mem_singleton.mp hr'
      exact ⟨_, hr, fits⟩
  readings k := by
    have total := h.total
    rw [Tally.reading_tick (by omega), h.readings, List.map_append, List.count_append]
    simp [hr, List.count_singleton]

/-- A result is recorded on top of the others. -/
theorem record (h : Counts t runs) (room : runs.length < 255) (name : String) {r : GroupRun}
    {result : Except ChipError Outcome} (hr : Counter.ofRun? r = some (.of result))
    (fits : (Counter.of result).Fits r.events) (m : MemoryChip) :
    ∃ t' events, (t.record name result).run MemoryChip.board m = ⟨.ok t', events, m⟩ ∧
      Counts t' (runs ++ [r]) := by
  have space : t.total < 255 := by
    rw [h.total]
    exact room
  obtain ⟨events, hrun, -⟩ := Tally.record_quiet space name result m
  exact ⟨_, events, hrun, h.snoc room hr fits⟩

theorem merge {t' : Tally} {runs' : List GroupRun} (h : Counts t runs) (h' : Counts t' runs')
    (room : runs.length + runs'.length ≤ 255) :
    ∃ sum, t.merge t' = .ok sum ∧ Counts sum (runs ++ runs') := by
  have fits : t.total + t'.total ≤ 255 := by
    rw [h.total, h'.total]
    exact room
  refine ⟨_, Tally.merge_eq fits, h.append h' fun k => ?_⟩
  unfold Tally.total at fits
  cases k <;> exact Tally.toNat_add_of_room (by omega)

/-- A pass counts its groups on top of what came before. -/
theorem runGroups (h : Counts t runs) {gs : List Group} (fair : ∀ g ∈ gs, Fair g.action)
    (room : runs.length + gs.length ≤ 255) (m : MemoryChip) :
    ∃ t' events, (t.runGroups gs).run MemoryChip.board m = ⟨.ok t', events, afterGroups gs m⟩ ∧
      Counts t' (runs ++ groupRuns gs m) := by
  induction gs generalizing t runs m with
  | nil => exact ⟨t, [], rfl, by simpa [groupRuns] using h⟩
  | cons g gs ih =>
    obtain ⟨hg, hgs⟩ := List.forall_mem_cons.mp fair
    rw [List.length_cons] at room
    obtain ⟨result, hresult, hk, fits⟩ := hg.counted m
    obtain ⟨t₁, lines, hrecord, h₁⟩ :=
      h.record (by omega) g.name hk fits (m.run g.action).board
    obtain ⟨t', events, hrest, counts⟩ := ih h₁ hgs (by simp; omega) (m.run g.action).board
    refine ⟨t', (m.run g.action).events ++ (lines ++ events), ?_, by simpa [groupRuns] using counts⟩
    have first : g.action.run.run MemoryChip.board m =
        ⟨.ok result, (m.run g.action).events, (m.run g.action).board⟩ := by
      rw [← hresult]
      rfl
    change (Program.run MemoryChip.board
      ((g.action.run >>= t.record g.name) >>= fun t => t.runGroups gs) m) = _
    rw [bind_assoc, Program.run_bind, first, Program.Run.andThen_ok, Program.run_bind, hrecord,
      Program.Run.andThen_ok, hrest]
    rfl

/-- Where nothing is counted as written or failed, nothing was written. -/
theorem no_writes (h : Counts t runs) (written : t.written = 0) (failed : t.failed = 0) :
    ∀ r ∈ runs, r.writes = [] := by
  intro r hr
  obtain ⟨k, hk, fits⟩ := h.fits r hr
  have counted : 0 < (t.reading k).toNat := by
    rw [h.readings]
    exact List.count_pos_iff.mpr (List.mem_map.mpr ⟨r, hr, hk⟩)
  cases k with
  | written => simp [Tally.reading, written] at counted
  | failed => simp [Tally.reading, failed] at counted
  | unchanged => exact fits.writes.mpr rfl
  | skipped => exact fits.smooth.writes.mpr rfl
  | incomplete => exact fits.smooth.writes.mpr rfl

end Counts

theorem groupRuns_length (gs : List Group) (m : MemoryChip) :
    (groupRuns gs m).length = gs.length := by
  induction gs generalizing m with
  | nil => rfl
  | cons g gs ih => rw [groupRuns, List.length_cons, ih, List.length_cons]

/-- Groups that write nothing leave the registers as they are. -/
theorem afterGroups_of_no_writes {gs : List Group} {m : MemoryChip}
    (h : ∀ r ∈ groupRuns gs m, r.writes = []) : (afterGroups gs m).registers = m.registers := by
  induction gs generalizing m with
  | nil => rfl
  | cons g gs ih =>
    obtain ⟨hg, hgs⟩ := List.forall_mem_cons.mp h
    rw [afterGroups, ih hgs]
    exact (Program.run_registers _ m).trans (replay_of_no_write hg _)

end Chip

open Chip

namespace Pmic

theorem probe_counts (d : Device) (s : Settings) (m : MemoryChip) :
    ∃ t events, (Pmic.probe d s).run MemoryChip.board m =
        ⟨.ok t, events, afterGroups (groups d s) m⟩ ∧ Counts t (groupRuns (groups d s) m) := by
  obtain ⟨t, events, hrun, counts⟩ :=
    Counts.empty.runGroups (fair_groups d s) (show 0 + 5 ≤ 255 by omega) m
  rw [Pmic.probe, Program.run_bind, hrun, Program.Run.andThen_ok]
  split
  · exact ⟨t, _, rfl, counts⟩
  · exact ⟨t, _, rfl, counts⟩

end Pmic

namespace Rail

/-- How many rails have a node in the table. -/
def nodeCount (t : Config.Table) (rails : List Rail) : Nat :=
  rails.countP fun r => t.hasNode r.path

theorem configuredGroups_length (d : Device) (t : Config.Table) (r : Rail) :
    (configuredGroups d t r).length = if t.hasNode r.path then 3 else 0 := by
  rw [configuredGroups, ofTable?_name]
  split <;> rfl

theorem tableGroups_length (d : Device) (t : Config.Table) (rails : List Rail) :
    (tableGroups d t rails).length = 3 * nodeCount t rails := by
  induction rails with
  | nil => rfl
  | cons r rails ih =>
    rw [tableGroups] at ih
    rw [tableGroups, List.flatMap_cons, List.length_append, ih, configuredGroups_length, nodeCount,
      nodeCount, List.countP_cons]
    split <;> omega

theorem applyConfigured_counts (d : Device) (table : Config.Table) {tally : Tally}
    {runs : List GroupRun} (h : Counts tally runs) (room : runs.length + 3 ≤ 255) (r : Rail)
    (m : MemoryChip) :
    ∃ t events, (applyConfigured d table tally r).run MemoryChip.board m =
        ⟨.ok t, events, afterGroups (configuredGroups d table r) m⟩ ∧
      Counts t (runs ++ groupRuns (configuredGroups d table r) m) := by
  unfold applyConfigured configuredGroups
  cases Settings.ofTable? table r.name with
  | none => exact ⟨tally, [], rfl, by simpa [groupRuns] using h⟩
  | some s =>
    obtain ⟨t, events, hrun, counts⟩ :=
      Counts.empty.runGroups (fair_groups d r s) (show 0 + 3 ≤ 255 by omega) m
    obtain ⟨sum, hsum, both⟩ := h.merge counts room
    have steps : (r.apply d s).run MemoryChip.board m =
        ⟨.ok t, events, afterGroups (groups d r s) m⟩ := hrun
    have logged : (Program.log .debug s!"AXP228: configuring {r.name}").run MemoryChip.board m =
        ⟨.ok (), [⟨.log ⟨.debug, s!"AXP228: configuring {r.name}"⟩, ()⟩], m⟩ := rfl
    dsimp only
    rw [Program.run_bind, logged, Program.Run.andThen_ok, Program.run_bind, steps,
      Program.Run.andThen_ok, hsum]
    exact ⟨sum, _, rfl, both⟩

theorem pass_counts (d : Device) (table : Config.Table) (rails : List Rail) {tally : Tally}
    {runs : List GroupRun} (h : Counts tally runs) (room : runs.length + 3 * rails.length ≤ 255)
    (m : MemoryChip) :
    ∃ t events, (rails.foldlM (applyConfigured d table) tally).run MemoryChip.board m =
        ⟨.ok t, events, afterGroups (tableGroups d table rails) m⟩ ∧
      Counts t (runs ++ groupRuns (tableGroups d table rails) m) := by
  induction rails generalizing tally runs m with
  | nil => exact ⟨tally, [], rfl, by simpa [tableGroups, groupRuns] using h⟩
  | cons r rails ih =>
    rw [List.length_cons] at room
    obtain ⟨t₁, before, hfirst, h₁⟩ := applyConfigured_counts d table h (by omega) r m
    have length : (runs ++ groupRuns (configuredGroups d table r) m).length ≤ runs.length + 3 := by
      rw [List.length_append, groupRuns_length, configuredGroups_length]
      split <;> omega
    obtain ⟨t, events, hrest, counts⟩ :=
      ih h₁ (by omega) (afterGroups (configuredGroups d table r) m)
    have groups : tableGroups d table (r :: rails) =
        configuredGroups d table r ++ tableGroups d table rails := List.flatMap_cons
    rw [List.foldlM_cons, Program.run_bind, hfirst, Program.Run.andThen_ok, hrest, groups,
      groupRuns_append, afterGroups_append, ← List.append_assoc]
    exact ⟨t, _, rfl, counts⟩

theorem applyAll_counts (d : Device) (table : Config.Table) (m : MemoryChip) :
    ∃ t events, (applyAll d table).run MemoryChip.board m =
        ⟨.ok t, events, afterGroups (tableGroups d table all) m⟩ ∧
      Counts t (groupRuns (tableGroups d table all) m) :=
  pass_counts d table all Counts.empty (show 0 + 48 ≤ 255 by omega) m

end Rail

namespace Board

/-- All groups of setting up the power chip. -/
def powerGroups (t : Config.Table) : List Group :=
  Pmic.groups .standard (.ofTable t) ++ Rail.tableGroups .standard t Rail.all

theorem powerGroups_length (t : Config.Table) :
    (powerGroups t).length = 5 + 3 * Rail.nodeCount t Rail.all := by
  rw [powerGroups, List.length_append, Rail.tableGroups_length]
  rfl

/-- Setting up the power chip goes through all of its groups and counts each. -/
theorem initPower_counts {t : Config.Table} (h : t.hasNode Pmic.node = true) (m : MemoryChip) :
    GoesThrough (initPower t) (powerGroups t) m ∧
    ∃ tally events, (initPower t).run MemoryChip.board m =
        ⟨.ok (some tally), events, afterGroups (powerGroups t) m⟩ ∧
      Counts tally (groupRuns (powerGroups t) m) := by
  let chip_groups := Pmic.groups .standard (.ofTable t)
  have probing : GoesThrough (Pmic.probe .standard (.ofTable t)) chip_groups m :=
    Pmic.probe_through _ _ m
  have rest := Rail.applyAll_through .standard t (afterGroups chip_groups m)
  obtain ⟨chip, before, hchip, chip_counts⟩ := Pmic.probe_counts .standard (.ofTable t) m
  obtain ⟨rails, events, hrails, rail_counts⟩ :=
    Rail.applyAll_counts .standard t (afterGroups chip_groups m)
  have room : (groupRuns chip_groups m).length +
      (groupRuns (Rail.tableGroups .standard t Rail.all) (afterGroups chip_groups m)).length ≤
        255 := by
    have few : Rail.nodeCount t Rail.all ≤ 16 := List.countP_le_length
    rw [groupRuns_length, groupRuns_length, Rail.tableGroups_length]
    change 5 + _ ≤ 255
    omega
  obtain ⟨tally, hmerge, counts⟩ := chip_counts.merge rail_counts room
  rw [← groupRuns_append] at counts
  rw [initPower, if_pos h]
  constructor
  · refine probing.bind fun chip' hchip' => rest.bind_quiet fun rails' hrails' => ?_
    rw [hchip] at hchip'
    rw [hrails] at hrails'
    obtain rfl := Except.ok.inj hchip'
    obtain rfl := Except.ok.inj hrails'
    rw [hmerge]
    exact (GoesThrough.log _ _ _).bind_quiet fun _ _ => .pure _ _
  · rw [Program.run_bind, hchip, Program.Run.andThen_ok, Program.run_bind, hrails,
      Program.Run.andThen_ok, hmerge, powerGroups, afterGroups_append]
    exact ⟨tally, _, rfl, counts⟩

end Board

namespace Charger

/-- The groups of a probe of this chip, but for the report of the status. -/
def ownGroups (s : Settings) (m : MemoryChip) : List Group :=
  earlyGroups s ++ gaugeGroups s (curveChanged s m)

/-- The run of the report of the status. -/
def statusRun (s : Settings) (m : MemoryChip) : GroupRun :=
  (afterGroups (ownGroups s m) m).run ((fun _ => .unchanged) <$> device.reportStatus)

theorem probeGroups_own (s : Settings) (m : MemoryChip) : probeGroups s m =
    ownGroups s m ++ [⟨"status", (fun _ => .unchanged) <$> device.reportStatus⟩] := by
  simp [probeGroups, lateGroups, ownGroups]

/-- The report writes nothing, and comes to an error of the bus just if a read fails. -/
theorem statusRun_told (s : Settings) (m : MemoryChip) :
    ∃ result, (device.reportStatus.run.run MemoryChip.board
        (afterGroups (ownGroups s m) m)).outcome = .ok result ∧
      (statusRun s m).outcome = .ok (result.map fun _ => .unchanged) ∧
      told (fun _ => false) result (statusRun s m).board (statusRun s m).events := by
  have tells : Tells false device.reportStatus fun _ => false := status_tells device
  obtain ⟨result, hrun, told⟩ :=
    tells (afterGroups (ownGroups s m) m) [] silent_nil.smooth
  have outcome : ((afterGroups (ownGroups s m) m).run device.reportStatus).outcome = .ok result :=
    hrun
  refine ⟨result, hrun, ?_, ?_⟩
  · rw [statusRun, MemoryChip.run_map, outcome]
    rfl
  · rw [statusRun, MemoryChip.run_map]
    exact told

/-- A probe up to the report of the status. -/
def applyOwn (s : Settings) : Program Tally := do
  let tally ← Tally.empty.runGroups (groups s)
  let curve ← (applyCurve s).run
  let tally ← tally.record "OCV table" curve
  tally.runGroups (gaugeGroups s (wroteCurve curve))

theorem probe_eq_applyOwn (c : Charger) : c.probe = (do
    let tally ← applyOwn c.settings
    match ← device.reportStatus.run with
    | .ok () => return tally
    | .error e => tally.record "status" (.error e)) := by
  have own (rest : Tally → Program Tally) : applyOwn c.settings >>= rest = (do
      let tally ← Tally.empty.runGroups (groups c.settings)
      let curve ← (applyCurve c.settings).run
      let tally ← tally.record "OCV table" curve
      let tally ← tally.runGroups (gaugeGroups c.settings (wroteCurve curve))
      rest tally) := by
    simp only [applyOwn, bind_assoc]
  exact (probe_eq c).trans (own _).symm

theorem applyOwn_counts {s : Settings} (hs : s.Encodable) (m : MemoryChip) :
    ∃ t events, (applyOwn s).run MemoryChip.board m =
        ⟨.ok t, events, afterGroups (ownGroups s m) m⟩ ∧
      Counts t (groupRuns (ownGroups s m) m) := by
  obtain ⟨t₁, ev₁, h₁, c₁⟩ :=
    Counts.empty.runGroups (fair_groups s) (show 0 + 10 ≤ 255 by omega) m
  rw [List.nil_append] at c₁
  have ten : (groupRuns (groups s) m).length = 10 := groupRuns_length _ m
  obtain ⟨curve, hcurve, hk, fits⟩ := Fair.counted (g := ⟨"OCV table", applyCurve s⟩)
    (fair_curve s) (afterGroups (groups s) m)
  have changed : curveChanged s m = wroteCurve curve := by
    rw [curveChanged, show (curveRun s m).outcome = .ok curve from hcurve]
  have curve_run : (applyCurve s).run.run MemoryChip.board (afterGroups (groups s) m) =
      ⟨.ok curve, (curveRun s m).events, afterGroups (earlyGroups s) m⟩ := by
    rw [earlyGroups, afterGroups_append, ← hcurve]
    rfl
  obtain ⟨t₂, ev₂, h₂, c₂⟩ :=
    c₁.record (by omega) "OCV table" hk fits (afterGroups (earlyGroups s) m)
  have early : groupRuns (groups s) m ++ [curveRun s m] = groupRuns (earlyGroups s) m := by
    rw [earlyGroups, groupRuns_append]
    rfl
  obtain ⟨t₃, ev₃, h₃, c₃⟩ := c₂.runGroups (fair_gaugeGroups hs (wroteCurve curve))
    (by rw [List.length_append, ten]; change 10 + 1 + 2 ≤ 255; omega)
    (afterGroups (earlyGroups s) m)
  refine ⟨t₃, ev₁ ++ ((curveRun s m).events ++ (ev₂ ++ ev₃)), ?_, ?_⟩
  · simp [applyOwn, h₁, curve_run, h₂, h₃, ownGroups, changed, afterGroups_append]
  · rw [ownGroups, groupRuns_append, ← early, changed]
    exact c₃

/-- A report that meets no failure is one without writes. -/
theorem statusRun_writes {s : Settings} {m : MemoryChip} (h : (statusRun s m).Unfailed) :
    (statusRun s m).writes = [] := by
  obtain ⟨result, -, -, told⟩ := statusRun_told s m
  cases result with
  | ok => exact told.writes.mpr rfl
  | error e =>
    obtain ⟨event, hevent, failed⟩ := told.2
    exact absurd failed (by simp [h event hevent])

/-- A probe counts its groups, and the report of the status only if that fails. -/
theorem probe_counts {c : Charger} (hs : c.settings.Encodable) (m : MemoryChip) :
    ∃ t, (c.probe.run MemoryChip.board m).outcome = .ok t ∧
      ((statusRun c.settings m).Unfailed → Counts t (groupRuns (ownGroups c.settings m) m)) ∧
      (¬ (statusRun c.settings m).Unfailed →
        Counts t (groupRuns (ownGroups c.settings m) m ++ [statusRun c.settings m])) := by
  obtain ⟨t, events, hrun, counts⟩ := applyOwn_counts hs m
  have few : (groupRuns (ownGroups c.settings m) m).length = 13 := groupRuns_length _ m
  obtain ⟨result, hstatus, status, told⟩ := statusRun_told c.settings m
  rw [probe_eq_applyOwn, Program.run_bind, hrun, Program.Run.andThen_ok, Program.run_bind,
    Program.Run.andThen_of_ok hstatus]
  cases result with
  | ok => exact ⟨t, rfl, fun _ => counts, fun failed => absurd told.unfailed failed⟩
  | error e =>
    have hk : Counter.ofRun? (statusRun c.settings m) = some (.of (.error e)) := by
      rw [Counter.ofRun?, status]
      rfl
    have fits : (Counter.of (.error e)).Fits (statusRun c.settings m).events := by
      rw [Counter.of_bus told.1]
      exact .inl told.2
    obtain ⟨t', lines, hrecord, all⟩ := counts.record (by omega) "status" hk fits
      (device.reportStatus.run.run MemoryChip.board (afterGroups (ownGroups c.settings m) m)).board
    refine ⟨t', congrArg Program.Run.outcome hrecord, fun unfailed => ?_, fun _ => all⟩
    obtain ⟨event, hevent, failed⟩ := told.2
    exact absurd failed (by simp [unfailed event hevent])

/-- A probe that counts nothing as written or failed leaves the registers as they are. -/
theorem probe_untouched {c : Charger} (hs : c.settings.Encodable) {m : MemoryChip} {t : Tally}
    (ht : (c.probe.run MemoryChip.board m).outcome = .ok t) (written : t.written = 0)
    (failed : t.failed = 0) : (c.probe.run MemoryChip.board m).board.registers = m.registers := by
  obtain ⟨t', ht', clean, broken⟩ := probe_counts hs m
  obtain rfl := Except.ok.inj (ht'.symm.trans ht)
  have quiet : ∀ r ∈ groupRuns (ownGroups c.settings m) m ++ [statusRun c.settings m],
      r.writes = [] := by
    by_cases unfailed : (statusRun c.settings m).Unfailed
    · intro r hr
      rcases List.mem_append.mp hr with hr | hr
      · exact (clean unfailed).no_writes written failed r hr
      · obtain rfl := List.mem_singleton.mp hr
        exact statusRun_writes unfailed
    · exact (broken unfailed).no_writes written failed
  rw [(probe_through hs m).board]
  apply afterGroups_of_no_writes
  rw [probeGroups_own, groupRuns_append]
  exact quiet

end Charger

/-- Whatever the registers hold and whichever transfers fail, every pass ends with a tally that
counts each of its groups once: five for the chip, three for each rail that has a node, both
together for setting up the power chip, and thirteen for the charger, or fourteen where a read of
its status fails. A charger probe that counts nothing as written or failed changes no register. -/
theorem tallies_count_every_group (m : MemoryChip) :
    (∀ (d : Device) (s : Pmic.Settings), ∃ t,
      ((Pmic.probe d s).run MemoryChip.board m).outcome = .ok t ∧ t.total = 5 ∧
      GoesThrough (Pmic.probe d s) (Pmic.groups d s) m ∧ Counts t (groupRuns (Pmic.groups d s) m)) ∧
    (∀ (d : Device) (table : Config.Table), ∃ t,
      ((Rail.applyAll d table).run MemoryChip.board m).outcome = .ok t ∧
      t.total = 3 * Rail.nodeCount table Rail.all ∧
      GoesThrough (Rail.applyAll d table) (Rail.tableGroups d table Rail.all) m ∧
      Counts t (groupRuns (Rail.tableGroups d table Rail.all) m)) ∧
    (∀ table : Config.Table, table.hasNode Pmic.node = true → ∃ t,
      ((Board.initPower table).run MemoryChip.board m).outcome = .ok (some t) ∧
      t.total = 5 + 3 * Rail.nodeCount table Rail.all ∧
      GoesThrough (Board.initPower table) (Board.powerGroups table) m ∧
      Counts t (groupRuns (Board.powerGroups table) m)) ∧
    ∀ c : Charger, c.settings.Encodable → ∃ t,
      let own := groupRuns (Charger.ownGroups c.settings m) m
      let status := Charger.statusRun c.settings m
      (c.probe.run MemoryChip.board m).outcome = .ok t ∧
      GoesThrough c.probe (Charger.probeGroups c.settings m) m ∧
      groupRuns (Charger.probeGroups c.settings m) m = own ++ [status] ∧
      (status.Unfailed → t.total = 13 ∧ Counts t own) ∧
      (¬ status.Unfailed → t.total = 14 ∧ Counts t (own ++ [status])) ∧
      (t.written = 0 → t.failed = 0 →
        (c.probe.run MemoryChip.board m).board.registers = m.registers) := by
  refine ⟨fun d s => ?_, fun d table => ?_, fun table h => ?_, fun c hs => ?_⟩
  · obtain ⟨t, events, hrun, counts⟩ := Pmic.probe_counts d s m
    exact ⟨t, by rw [hrun], counts.total.trans (groupRuns_length _ m), Pmic.probe_through d s m,
      counts⟩
  · obtain ⟨t, events, hrun, counts⟩ := Rail.applyAll_counts d table m
    refine ⟨t, by rw [hrun], ?_, Rail.applyAll_through d table m, counts⟩
    rw [counts.total, groupRuns_length, Rail.tableGroups_length]
  · obtain ⟨through, t, events, hrun, counts⟩ := Board.initPower_counts h m
    refine ⟨t, by rw [hrun], ?_, through, counts⟩
    rw [counts.total, groupRuns_length, Board.powerGroups_length]
  · obtain ⟨t, ht, clean, broken⟩ := Charger.probe_counts hs m
    have thirteen : (groupRuns (Charger.ownGroups c.settings m) m).length = 13 :=
      groupRuns_length _ m
    have runs : groupRuns (Charger.probeGroups c.settings m) m =
        groupRuns (Charger.ownGroups c.settings m) m ++ [Charger.statusRun c.settings m] := by
      rw [Charger.probeGroups_own, groupRuns_append]
      rfl
    refine ⟨t, ht, Charger.probe_through hs m, runs, fun unfailed => ?_, fun failed => ?_,
      Charger.probe_untouched hs ht⟩
    · exact ⟨(clean unfailed).total.trans thirteen, clean unfailed⟩
    · exact ⟨by rw [(broken failed).total]; simp [thirteen], broken failed⟩

/-- One rail beside the chip's own node, and a charger whose resistance cannot be written. -/
theorem tallies_with_resistance_failing :
    let m : MemoryChip :=
      ⟨.zero, .always (.failsWrite Register.resistanceHigh 5), fun _ => true⟩
    let table : Config.Table := ⟨[⟨Pmic.node, []⟩, ⟨Rail.dcdc1.path, []⟩]⟩
    let c := Charger.batteryBoard (some Charger.slope) 300 4000
    let own := groupRuns (Charger.ownGroups c.settings m) m
    let status := Charger.statusRun c.settings m
    (table.hasNode Pmic.node = true ∧ ∃ t,
      ((Board.initPower table).run MemoryChip.board m).outcome = .ok (some t) ∧
      t.total = 5 + 3 * Rail.nodeCount table Rail.all ∧
      GoesThrough (Board.initPower table) (Board.powerGroups table) m ∧
      Counts t (groupRuns (Board.powerGroups table) m)) ∧
    c.settings.Encodable ∧ ∃ t,
      (c.probe.run MemoryChip.board m).outcome = .ok t ∧
      GoesThrough c.probe (Charger.probeGroups c.settings m) m ∧
      groupRuns (Charger.probeGroups c.settings m) m = own ++ [status] ∧
      (status.Unfailed → t.total = 13 ∧ Counts t own) ∧
      (¬ status.Unfailed → t.total = 14 ∧ Counts t (own ++ [status])) ∧
      (t.written = 0 → t.failed = 0 →
        (c.probe.run MemoryChip.board m).board.registers = m.registers) := by
  intro m table c own status
  have hnode : table.hasNode Pmic.node = true := by decide +kernel
  have hresistance : Charger.Resistance.encode (300 : Int32).toInt = .ok 0x117 := by decide
  have hcapacity : Charger.Capacity.encode (4000 : Int32).toInt = .ok 0xABB := by decide
  have hs : c.settings.Encodable := Charger.Settings.encodable rfl hresistance rfl hcapacity
  obtain ⟨-, -, power, charger⟩ := tallies_count_every_group m
  exact ⟨⟨hnode, power table hnode⟩, hs, charger c hs⟩

end Bringup
