import Bringup.Proofs.ChargerFootprint
import Bringup.Proofs.GroupIsolation
import Bringup.Proofs.PmicFootprint

/-! Probes and the pass over the rails on a bus that may fail at any transfer: which groups they
go through, and which fields each group has for itself. -/
namespace Bringup

open Bench (MemoryChip RegisterFile)
open Chip

/-- The groups of a program, judged by its own end and its end on a bus that never fails. -/
def Chip.Isolates {α : Type} (p : Program α) (gs : List Group) (fields : List (List Field))
    (m : MemoryChip) : Prop :=
  Isolated (groupRuns gs m) fields (p.run MemoryChip.board m).board.registers
    (p.run MemoryChip.board m.reliable).board.registers

/-- A pass that goes through groups that are apart isolates them. -/
theorem Chip.GoesThrough.isolates {α : Type} {p : Program α} {gs : List Group}
    {parts : List Footprint} (through : ∀ m, GoesThrough p gs m)
    (covers : List.Forall₂ (fun g a => Footprint.Covers a g.action.run) gs parts)
    (apart : parts.Pairwise Footprint.Apart) (m : MemoryChip) :
    Isolates p gs (parts.map (·.writes)) m := by
  rw [Isolates, (through m).board, (through m.reliable).board]
  exact isolated_of_apart covers apart rfl fun a _ => a.agree_reliable m

namespace Pmic

/-- The fields of each group of a probe. -/
def groupFields : List (List Field) :=
  [[frequencyField], [offVoltageField], [.whole Register.adcControl], [overheatField],
    interruptFields]

theorem groups_apart : groupFootprints.Pairwise Footprint.Apart := by decide +kernel

theorem probe_through (d : Device) (s : Settings) (m : MemoryChip) :
    GoesThrough (Pmic.probe d s) (groups d s) m := by
  have pass : GoesThrough (Tally.empty.runGroups (groups d s)) (groups d s) m :=
    .runGroups (.of_parts (covers_groups d s) groups_part) (groups_room d s) m
  refine pass.bind_quiet fun t _ => ?_
  dsimp only
  split
  · exact (GoesThrough.log _ _ _).bind_quiet fun _ _ => .pure t _
  · exact .pure t _

end Pmic

namespace Rail

/-! ## The rails -/

/-- The steps of a rail, if it is configured. -/
def configuredGroups (d : Device) (table : Config.Table) (r : Rail) : List Group :=
  (Settings.ofTable? table r.name).elim [] (groups d r)

def configuredFields (table : Config.Table) (r : Rail) : List (List Field) :=
  (Settings.ofTable? table r.name).elim [] fun _ => r.stepFields

/-- The steps of every configured rail, in the order of the rails. -/
def tableGroups (d : Device) (table : Config.Table) (rails : List Rail) : List Group :=
  rails.flatMap (configuredGroups d table)

/-- The fields of those steps. -/
def tableFields (table : Config.Table) (rails : List Rail) : List (List Field) :=
  rails.flatMap (configuredFields table)

theorem covers_configured (d : Device) (table : Config.Table) (r : Rail) :
    List.Forall₂ (fun g a => Footprint.Covers a g.action.run) (configuredGroups d table r)
      ((configuredFields table r).map .ofFields) := by
  unfold configuredGroups configuredFields
  cases Settings.ofTable? table r.name with
  | none => exact .nil
  | some s => exact r.covers_groups d s

theorem covers_table (d : Device) (table : Config.Table) (rails : List Rail) :
    List.Forall₂ (fun g a => Footprint.Covers a g.action.run) (tableGroups d table rails)
      ((tableFields table rails).map .ofFields) := by
  induction rails with
  | nil => exact .nil
  | cons r rails ih =>
    rw [tableFields, List.flatMap_cons, List.map_append]
    exact List.rel_append (covers_configured d table r) ih

theorem steps_apart : (all.flatMap stepFields).Pairwise fun fs gs =>
    (Footprint.ofFields fs).Apart (.ofFields gs) := by
  decide +kernel

theorem tableFields_sublist (table : Config.Table) (rails : List Rail) :
    (tableFields table rails).Sublist (rails.flatMap stepFields) := by
  induction rails with
  | nil => exact .slnil
  | cons r rails ih =>
    have first : (configuredFields table r).Sublist r.stepFields := by
      unfold configuredFields
      cases Settings.ofTable? table r.name with
      | none => exact List.nil_sublist _
      | some s => exact List.Sublist.refl _
    exact first.append ih

/-- No two steps of configured rails touch one bit. -/
theorem table_apart (table : Config.Table) :
    ((tableFields table all).map Footprint.ofFields).Pairwise Footprint.Apart :=
  List.pairwise_map.mpr (steps_apart.sublist (tableFields_sublist table all))

theorem applyConfigured_through (d : Device) (table : Config.Table) {tally : Tally}
    (room : tally.total + 3 ≤ 255) (r : Rail) (m : MemoryChip) :
    GoesThrough (applyConfigured d table tally r) (configuredGroups d table r) m := by
  unfold applyConfigured configuredGroups
  cases Settings.ofTable? table r.name with
  | none => exact .pure tally m
  | some s =>
    have steps : GoesThrough (r.apply d s) (groups d r s) m :=
      .runGroups (Pmic.covers_steps d r s) (Pmic.steps_room d r s) m
    refine (GoesThrough.log _ _ m).bind fun _ _ => steps.bind_quiet fun t ht => ?_
    have three := Pmic.total_of_rail d r s ht
    obtain ⟨sum, hsum, -⟩ := Tally.merge_total (show tally.total + t.total ≤ 255 by omega)
    rw [hsum]
    exact .pure sum _

/-- The rails may be taken in any order. -/
theorem pass_through (d : Device) (table : Config.Table) (rails : List Rail) {tally : Tally}
    (room : tally.total + 3 * rails.length ≤ 255) (m : MemoryChip) :
    GoesThrough (rails.foldlM (applyConfigured d table) tally) (tableGroups d table rails) m := by
  induction rails generalizing tally m with
  | nil => exact .pure tally m
  | cons r rails ih =>
    rw [List.length_cons] at room
    have room' : tally.total + 3 ≤ 255 := by omega
    obtain ⟨-, total⟩ := Pmic.covers_applyConfigured d table room' r
    rw [List.foldlM_cons]
    refine (applyConfigured_through d table room' r m).bind fun t ht => ih ?_ _
    have := total m t ht
    omega

theorem applyAll_through (d : Device) (table : Config.Table) (m : MemoryChip) :
    GoesThrough (applyAll d table) (tableGroups d table all) m :=
  pass_through d table all (by change 0 + 48 ≤ 255; omega) m

end Rail

namespace Charger

/-! ## The charger -/

/-- The groups up to the curve. None of them depends on another. -/
def earlyGroups (s : Settings) : List Group := groups s ++ [⟨"OCV table", applyCurve s⟩]

/-- What follows the curve: both words, and the report of the status. -/
def lateGroups (s : Settings) (changed : Bool) : List Group :=
  gaugeGroups s changed ++ [⟨"status", (fun _ => .unchanged) <$> device.reportStatus⟩]

def earlyParts : List Footprint := settingFields.map settingFootprint ++ [.ofFields curveFields]

def lateParts : List Footprint :=
  [.ofFields resistanceFields, .ofFields capacityFields, statusFootprint]

def earlyFields : List (List Field) := settingFields.map ([·]) ++ [curveFields]

def lateFields : List (List Field) := [resistanceFields, capacityFields, []]

/-- The run of the curve group in a probe of this chip. -/
def curveRun (s : Settings) (m : MemoryChip) : GroupRun :=
  (afterGroups (groups s) m).run (applyCurve s)

/-- Whether that run wrote the curve anew. -/
def curveChanged (s : Settings) (m : MemoryChip) : Bool :=
  match (curveRun s m).outcome with
  | .ok result => wroteCurve result
  | .error _ => false

/-- All groups of a probe of this chip. -/
def probeGroups (s : Settings) (m : MemoryChip) : List Group :=
  earlyGroups s ++ lateGroups s (curveChanged s m)

theorem covers_early (s : Settings) :
    List.Forall₂ (fun g a => Footprint.Covers a g.action.run) (earlyGroups s) earlyParts :=
  List.rel_append (covers_groups s) (.cons (covers_curve s) .nil)

theorem covers_late {s : Settings} (hs : s.Encodable) (changed : Bool) :
    List.Forall₂ (fun g a => Footprint.Covers a g.action.run) (lateGroups s changed) lateParts :=
  List.rel_append (covers_gaugeGroups hs changed)
    (.cons (covers_status.result fun _ => Outcome.unchanged) .nil)

/-- Every group of a probe has its fields for itself. -/
theorem parts_apart : (earlyParts ++ lateParts).Pairwise Footprint.Apart := by decide +kernel

theorem probeGroups_eq (s : Settings) (m : MemoryChip) : probeGroups s m = groups s ++
    ([⟨"OCV table", applyCurve s⟩] ++ ([] ++ (gaugeGroups s (curveChanged s m) ++
      [⟨"status", (fun _ => .unchanged) <$> device.reportStatus⟩]))) := by
  simp [probeGroups, earlyGroups, lateGroups]

/-- A probe goes through all of its groups once both words come to an end. -/
theorem probe_through_of_ends {c : Charger} {m : MemoryChip}
    (ends : ∀ r ∈ groupRuns (gaugeGroups c.settings (curveChanged c.settings m))
      (afterGroups (earlyGroups c.settings) m), ∃ x, r.outcome = .ok x) :
    GoesThrough c.probe (probeGroups c.settings m) m := by
  have settings := Footprint.Covers.of_parts (covers_groups c.settings) settings_part
  have early_eq : afterGroups (earlyGroups c.settings) m =
      afterGroups [⟨"OCV table", applyCurve c.settings⟩] (afterGroups (groups c.settings) m) :=
    afterGroups_append _ _ m
  rw [probeGroups_eq, probe_eq]
  refine (GoesThrough.runGroups settings (settings_room c.settings) m).bind fun t₁ ht₁ => ?_
  have total₁ : t₁.total = 10 := Tally.total_of_runGroups (settings_room c.settings) ht₁
  refine GoesThrough.bind (GoesThrough.group (g := ⟨"OCV table", applyCurve c.settings⟩)
    ((covers_curve c.settings).ends _)) fun curve hcurve => ?_
  have changed : curveChanged c.settings m = wroteCurve curve := by
    have run : (curveRun c.settings m).outcome = .ok curve := hcurve
    rw [curveChanged, run]
  refine (GoesThrough.record (by omega) _ _ _).bind fun t₂ ht₂ => ?_
  have total₂ : t₂.total = t₁.total + 1 := Tally.total_of_record (by omega) ht₂
  rw [changed, early_eq] at ends
  rw [changed, afterGroups_nil]
  have room : t₂.total + (gaugeGroups c.settings (wroteCurve curve)).length ≤ 255 := by
    change t₂.total + 2 ≤ 255
    omega
  refine (GoesThrough.runGroups_of_ends ends room).bind fun t₃ ht₃ => ?_
  have total₃ : t₃.total = t₂.total + 2 := Tally.total_of_runGroups room ht₃
  refine (GoesThrough.access covers_status "status" _ _).bind_quiet fun result _ => ?_
  cases result with
  | ok => exact .pure t₃ _
  | error e => exact .record (by omega) _ _ _

theorem probe_through {c : Charger} (hs : c.settings.Encodable) (m : MemoryChip) :
    GoesThrough c.probe (probeGroups c.settings m) m := by
  refine probe_through_of_ends ?_
  refine List.forall_mem_cons.mpr ⟨(covers_resistance hs _).ends _, ?_⟩
  refine List.forall_mem_cons.mpr ⟨(covers_capacity hs _).ends _, ?_⟩
  exact fun _ hr => absurd hr List.not_mem_nil

/-- Chips that agree on footprints apart from the early groups still do after them. -/
theorem agree_afterEarly (s : Settings) (m : MemoryChip) {b : Footprint}
    (apart : ∀ a ∈ earlyParts, a.Apart b) :
    b.Agree (afterGroups (earlyGroups s) m) (afterGroups (earlyGroups s) m.reliable) := by
  have left := agree_afterGroups (covers_early s) apart m
  have right := agree_afterGroups (covers_early s) apart m.reliable
  exact left.symm.trans ((b.agree_reliable m).trans right)

/-- A curve group that meets no failure goes the same way as where there is none. -/
theorem curveChanged_reliable {s : Settings} {m : MemoryChip} (h : (curveRun s m).Unfailed) :
    curveChanged s m.reliable = curveChanged s m := by
  have apart : ∀ a ∈ settingFields.map settingFootprint, a.Apart (.ofFields curveFields) := by
    decide +kernel
  have left := agree_afterGroups (covers_groups s) apart m
  have right := agree_afterGroups (covers_groups s) apart m.reliable
  have agree := left.symm.trans ((Footprint.agree_reliable _ m).trans right)
  have reliable := afterGroups_reliable (groups s) (m := m.reliable) rfl
  obtain ⟨outcome, -⟩ := (covers_curve s).follows agree
  rw [← reliable] at outcome
  have clean := congrArg Program.Run.outcome (Program.run_of_unfailed h)
  have same : (curveRun s m.reliable).outcome = (curveRun s m).outcome := outcome.symm.trans clean
  rw [curveChanged, curveChanged, same]

/-- A failure in one group of a probe does not reach the fields of another. The words, which are
written because of what became of the curve, go by the curve group as well. -/
theorem probe_isolates {c : Charger} (hs : c.settings.Encodable) (m : MemoryChip) :
    let final := (c.probe.run MemoryChip.board m).board.registers
    let goal := (c.probe.run MemoryChip.board m.reliable).board.registers
    let early := earlyGroups c.settings
    let late := lateGroups c.settings (curveChanged c.settings m)
    Isolated (groupRuns early m) earlyFields final goal ∧
    ((curveRun c.settings m).Unfailed →
      Isolated (groupRuns late (afterGroups early m)) lateFields final goal) := by
  intro final goal early late
  obtain ⟨early_apart, late_apart, across⟩ := List.pairwise_append.mp parts_apart
  have hfinal : final = (afterGroups late (afterGroups early m)).registers := by
    rw [← afterGroups_append]
    exact congrArg MemoryChip.registers (probe_through hs m).board
  have hgoal : goal = (afterGroups (lateGroups c.settings (curveChanged c.settings m.reliable))
      (afterGroups early m.reliable)).registers := by
    rw [← afterGroups_append]
    exact congrArg MemoryChip.registers (probe_through hs m.reliable).board
  constructor
  · have early_isolated := isolated_of_apart (covers_early c.settings) early_apart
      (m := m) (n := m.reliable) rfl fun a _ => a.agree_reliable m
    -- The late groups leave the fields of the early ones alone, whatever they do.
    have keep (changed : Bool) (k : MemoryChip) : ∀ fs ∈ earlyFields,
        RegisterFile.AgreeOn fs k.registers
          (afterGroups (lateGroups c.settings changed) k).registers := by
      intro fs hfs
      obtain ⟨a, ha, rfl⟩ := List.mem_map.mp (show fs ∈ earlyParts.map (·.writes) from hfs)
      exact (agree_afterGroups (covers_late hs changed)
        (fun b hb => (across a ha b hb).symm) k).writes
    rw [hfinal, hgoal]
    exact early_isolated.move (keep _ _) (keep _ _)
  · intro unfailed
    rw [hfinal, hgoal, curveChanged_reliable unfailed]
    exact isolated_of_apart (covers_late hs _) late_apart
      (afterGroups_reliable early rfl) fun a ha =>
        agree_afterEarly c.settings m fun b hb => across b hb a ha

end Charger

/-- On a bus that may fail at any transfer, the probes and the pass over the rails go through all
of their groups in order, and every group all of whose own transfers succeed leaves its fields as
they are where nothing fails. The two words of the gauge need the curve's transfers as well. -/
theorem groups_isolated_from_failures (m : MemoryChip) :
    (∀ (d : Device) (s : Pmic.Settings),
      GoesThrough (Pmic.probe d s) (Pmic.groups d s) m ∧
      Isolates (Pmic.probe d s) (Pmic.groups d s) Pmic.groupFields m) ∧
    (∀ (d : Device) (table : Config.Table),
      GoesThrough (Rail.applyAll d table) (Rail.tableGroups d table Rail.all) m ∧
      Isolates (Rail.applyAll d table) (Rail.tableGroups d table Rail.all)
        (Rail.tableFields table Rail.all) m) ∧
    ∀ c : Charger, c.settings.Encodable →
      let final := (c.probe.run MemoryChip.board m).board.registers
      let goal := (c.probe.run MemoryChip.board m.reliable).board.registers
      let early := Charger.earlyGroups c.settings
      let late := Charger.lateGroups c.settings (Charger.curveChanged c.settings m)
      GoesThrough c.probe (early ++ late) m ∧
      Isolated (groupRuns early m) Charger.earlyFields final goal ∧
      ((Charger.curveRun c.settings m).Unfailed →
        Isolated (groupRuns late (afterGroups early m)) Charger.lateFields final goal) := by
  refine ⟨fun d s => ⟨Pmic.probe_through d s m, ?_⟩,
    fun d table => ⟨Rail.applyAll_through d table m, ?_⟩,
    fun c hs => ⟨Charger.probe_through hs m, Charger.probe_isolates hs m⟩⟩
  · exact GoesThrough.isolates (Pmic.probe_through d s) (Pmic.covers_groups d s) Pmic.groups_apart m
  · have isolates := GoesThrough.isolates (Rail.applyAll_through d table)
      (Rail.covers_table d table Rail.all) (Rail.table_apart table) m
    have writes : (fun a : Footprint => a.writes) ∘ Footprint.ofFields = id := rfl
    rw [List.map_map, writes, List.map_id] at isolates
    exact isolates

/-- A probe in which the resistance cannot be written. -/
theorem resistance_failure_isolated :
    let c := Charger.batteryBoard (some Charger.slope) 300 4000
    let m : MemoryChip :=
      ⟨.zero, .always (.failsWrite Register.resistanceHigh 5), fun _ => true⟩
    let final := (c.probe.run MemoryChip.board m).board.registers
    let goal := (c.probe.run MemoryChip.board m.reliable).board.registers
    let early := Charger.earlyGroups c.settings
    let late := Charger.lateGroups c.settings (Charger.curveChanged c.settings m)
    c.settings.Encodable ∧
    GoesThrough c.probe (early ++ late) m ∧
    Isolated (groupRuns early m) Charger.earlyFields final goal ∧
    ((Charger.curveRun c.settings m).Unfailed →
      Isolated (groupRuns late (afterGroups early m)) Charger.lateFields final goal) := by
  intro c m final goal early late
  have hresistance : Charger.Resistance.encode (300 : Int32).toInt = .ok 0x117 := by decide
  have hcapacity : Charger.Capacity.encode (4000 : Int32).toInt = .ok 0xABB := by decide
  have hs : c.settings.Encodable := Charger.Settings.encodable rfl hresistance rfl hcapacity
  exact ⟨hs, (groups_isolated_from_failures m).2.2 c hs⟩

end Bringup
