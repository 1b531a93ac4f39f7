import Bringup.Proofs.TallyCounts

/-! Setting up the power chip twice. The first pass leaves nothing for the second to do but to set
up the interrupts again, and that puts the values back which are there already. -/
namespace Bringup

open Bench (Faults MemoryChip RegisterFile)
open Chip

namespace Chip

/-! ## Groups that find their work done -/

/-- The counter of a group that has nothing left to write. -/
def Counter.settled : Counter → Counter
  | .written => .unchanged
  | k => k

/-- The second run writes nothing, and is counted like the first unless that wrote. -/
structure Rerun (first second : GroupRun) : Prop where
  writes : second.writes = []
  counter : Counter.ofRun? second = (Counter.ofRun? first).map .settled

/-- Run anew where its fields still are as it has left them, the group leaves the chip alone. -/
def Repeats (a : Footprint) (p : Access Outcome) : Prop :=
  ∀ m n : MemoryChip, m = m.reliable → n = n.reliable → a.Agree (m.run p).board n →
    Rerun (m.run p) (n.run p) ∧ (n.run p).board = n

namespace Repeats

variable {a : Footprint}

/-- A group that never makes a transfer is not counted as one that wrote. -/
theorem idle {p : Access Outcome} (fair : Fair p) {result : Except ChipError Outcome}
    (h : ∀ m : MemoryChip, m.run p = ⟨.ok result, [], m⟩) : Repeats a p := by
  intro m n _ _ _
  have same : (Counter.of result).settled = Counter.of result := by
    obtain ⟨result', hresult', fits⟩ := fair.run m
    rw [h m] at hresult' fits
    obtain rfl := Except.ok.inj hresult'
    cases hk : Counter.of result with
    | written =>
      rw [hk] at fits
      exact absurd (fits.writes.mp rfl) (by simp)
    | _ => rfl
  rw [h m, h n]
  refine ⟨⟨rfl, ?_⟩, rfl⟩
  change some (Counter.of result) = some (Counter.of result).settled
  rw [same]

theorem skip : Repeats a (pure .skipped) := idle .skip fun _ => rfl

theorem reject (e : ChipError) : Repeats a (throw e) := idle (.throw e) fun _ => rfl

/-- An update finds its revision in place. -/
theorem update (d : Device) {f : Field} (h : f.Inside a.writes) (bits : UInt8) :
    Repeats a (Outcome.ofWritten <$> d.update f bits) := by
  by_cases fits : bits &&& ~~~f.mask = 0
  · rintro ⟨before, plan, hosts⟩ ⟨after, plan', hosts'⟩ hm hn agree
    obtain rfl : plan = .never := congrArg MemoryChip.plan hm
    obtain rfl : plan' = .never := congrArg MemoryChip.plan hn
    let v : Revision := ⟨f, bits, fits⟩
    have spared : Faults.none.Spares v.field.register := Faults.none_spares _
    obtain ⟨wrote, events, first, -⟩ := run_update d v spared before hosts
    have first' : MemoryChip.run ⟨before, .never, hosts⟩ (d.update f bits) =
        ⟨.ok (.ok wrote), events, ⟨v.apply before, .never, hosts⟩⟩ := first
    rw [MemoryChip.run_map, first'] at agree ⊢
    have holds : v.Holds after :=
      (agree.registers.holds_iff (a.inside_reads h)).mp (v.holds_apply before)
    have second : MemoryChip.run ⟨after, .never, hosts'⟩ (d.update f bits) = _ :=
      run_update_of_holds (q := .none) d spared holds
    rw [MemoryChip.run_map, second]
    refine ⟨⟨rfl, ?_⟩, rfl⟩
    cases wrote <;> rfl
  · have turned_down : Outcome.ofWritten <$> d.update f bits = throw .invalidInput := by
      rw [Device.update, if_pos fits]
      rfl
    rw [turned_down]
    exact reject .invalidInput

end Repeats

/-- Groups that are apart all find their work done, once it has been done and nothing else has
happened to their fields. -/
theorem second_pass {gs : List Group} {parts : List Footprint}
    (covers : List.Forall₂ (fun g a => Footprint.Covers a g.action.run) gs parts)
    (repeats : List.Forall₂ (fun g a => Repeats a g.action) gs parts)
    (apart : parts.Pairwise Footprint.Apart) {m n : MemoryChip} (hm : m = m.reliable)
    (hn : n = n.reliable) (agree : ∀ a ∈ parts, a.Agree (afterGroups gs m) n) :
    List.Forall₂ Rerun (groupRuns gs m) (groupRuns gs n) ∧ afterGroups gs n = n := by
  induction covers generalizing m with
  | nil => exact ⟨.nil, rfl⟩
  | @cons g a gs parts hg hgs ih =>
    obtain ⟨ha, hparts⟩ := List.pairwise_cons.mp apart
    obtain ⟨agree_first, agree_rest⟩ := List.forall_mem_cons.mp agree
    obtain ⟨again, rest⟩ := List.forall₂_cons.mp repeats
    have hm' : (m.run g.action).board = (m.run g.action).board.reliable :=
      Program.board_reliable _ hm
    have kept := agree_afterGroups hgs (fun b hb => (ha b hb).symm) (m.run g.action).board
    obtain ⟨rerun, board⟩ := again m n hm hn (kept.trans agree_first)
    obtain ⟨reruns, boards⟩ := ih rest hparts hm' agree_rest
    rw [groupRuns, groupRuns, afterGroups, board]
    exact ⟨.cons rerun reruns, boards⟩

/-! ## Counting two passes -/

namespace Rerun

variable {firsts seconds : List GroupRun}

theorem writes_nil (h : List.Forall₂ Rerun firsts seconds) :
    seconds.flatMap Program.Run.writes = [] := by
  induction h with
  | nil => rfl
  | cons hr _ ih => rw [List.flatMap_cons, hr.writes, ih]; rfl

theorem count_written (h : List.Forall₂ Rerun firsts seconds) :
    (seconds.map Counter.ofRun?).count (some .written) = 0 := by
  induction h with
  | nil => rfl
  | @cons r s rs ss hr _ ih =>
    rw [List.map_cons, List.count_cons, ih, hr.counter]
    cases Counter.ofRun? r with
    | none => rfl
    | some k => cases k <;> rfl

/-- Counters other than the two for writes read the same. -/
theorem count_eq (h : List.Forall₂ Rerun firsts seconds) {k : Counter} (written : k ≠ .written)
    (unchanged : k ≠ .unchanged) :
    (seconds.map Counter.ofRun?).count (some k) = (firsts.map Counter.ofRun?).count (some k) := by
  induction h with
  | nil => rfl
  | @cons r s rs ss hr _ ih =>
    rw [List.map_cons, List.count_cons, List.map_cons, List.count_cons, ih, hr.counter]
    cases Counter.ofRun? r with
    | none => rfl
    | some l => cases l <;> cases k <;> first | rfl | contradiction

end Rerun

/-- The second of two passes writes in one group only, which has written in the first as well. -/
inductive RerunButOne (rewrites : List (UInt8 × List UInt8)) :
    List GroupRun → List GroupRun → Prop
  | mk {before before' after after' : List GroupRun} {r r' : GroupRun}
      (hbefore : List.Forall₂ Rerun before before') (first : Counter.ofRun? r = some .written)
      (second : Counter.ofRun? r' = some .written) (writes : r'.writes = rewrites)
      (hafter : List.Forall₂ Rerun after after') :
      RerunButOne rewrites (before ++ r :: after) (before' ++ r' :: after')

theorem RerunButOne.writes_eq {rewrites : List (UInt8 × List UInt8)} {firsts seconds : List GroupRun}
    (h : RerunButOne rewrites firsts seconds) : seconds.flatMap Program.Run.writes = rewrites := by
  obtain ⟨hbefore, -, -, writes, hafter⟩ := h
  rw [List.flatMap_append, List.flatMap_cons, Rerun.writes_nil hbefore, Rerun.writes_nil hafter,
    writes, List.append_nil, List.nil_append]

/-- What such passes count. -/
theorem Counts.rerun {t t' : Tally} {rewrites : List (UInt8 × List UInt8)}
    {firsts seconds : List GroupRun} (h : RerunButOne rewrites firsts seconds)
    (counts : Counts t firsts) (counts' : Counts t' seconds) :
    t'.written = 1 ∧ t'.skipped = t.skipped ∧ t'.incomplete = t.incomplete ∧
      t'.failed = t.failed ∧ t'.total = t.total := by
  obtain ⟨hbefore, first, second, -, hafter⟩ := h
  have same (k : Counter) (written : k ≠ .written) (unchanged : k ≠ .unchanged) :
      t'.reading k = t.reading k := by
    apply UInt8.toNat_inj.mp
    rw [counts.readings, counts'.readings, List.map_append, List.map_append, List.map_cons,
      List.map_cons, List.count_append, List.count_append, List.count_cons, List.count_cons, first,
      second, Rerun.count_eq hbefore written unchanged, Rerun.count_eq hafter written unchanged]
  refine ⟨?_, same .skipped (by simp) (by simp), same .incomplete (by simp) (by simp),
    same .failed (by simp) (by simp), ?_⟩
  · apply UInt8.toNat_inj.mp
    refine (counts'.readings .written).trans ?_
    rw [List.map_append, List.map_cons, List.count_append, List.count_cons, second,
      Rerun.count_written hbefore, Rerun.count_written hafter]
    rfl
  · rw [counts'.total, counts.total]
    simp [hbefore.length_eq, hafter.length_eq]

end Chip

namespace Pmic

/-! ## The chip's own settings, and its interrupts -/

/-- The groups of a probe before the interrupts are set up. -/
def settingGroups (d : Device) (s : Settings) : List Group := (groups d s).take 4

def interruptGroup (d : Device) : Group := ⟨"IRQ init", do let _ ← initChip d; return .written⟩

def settingFootprints : List Footprint := groupFootprints.take 4

theorem groups_eq (d : Device) (s : Settings) :
    groups d s = settingGroups d s ++ [interruptGroup d] := rfl

theorem repeats_slots {a : Footprint} {f : Field} (h : f.Inside a.writes) (d : Device)
    (what : String) (slots : Option (List Slot)) : Repeats a (applySlots d f what slots) := by
  unfold applySlots
  cases slots with
  | none => exact .reject _
  | some slots =>
    cases hpack : pack slots with
    | none => simp only [hpack]; exact .reject _
    | some byte => simp only [hpack]; exact .update d h byte

theorem repeats_offVoltage (d : Device) (s : Settings) :
    Repeats (.ofFields [offVoltageField]) (applyOffVoltage d s) := by
  unfold applyOffVoltage
  cases s.offVoltage with
  | none => exact .skip
  | some v =>
    cases hpack : pack [⟨v, offVoltageField.mask, 0⟩] with
    | none => simp only [hpack]; exact .reject _
    | some bits => simp only [hpack]; exact .update d (by decide) bits

theorem repeats_adcControl (d : Device) (s : Settings) :
    Repeats (.ofFields [.whole Register.adcControl]) (applyAdcControl d s) := by
  have all : (Field.whole Register.adcControl).Inside [.whole Register.adcControl] := by decide
  unfold applyAdcControl
  cases s.adcControl with
  | none => exact .skip
  | some v =>
    cases hpack : pack [⟨v, 0xFF, 0⟩] with
    | none => simp only [hpack]; exact .reject _
    | some bits => simp only [hpack]; exact .update d (Field.Inside.of_whole all) _

theorem repeats_settings (d : Device) (s : Settings) :
    List.Forall₂ (fun g a => Repeats a g.action) (settingGroups d s) settingFootprints :=
  .cons (repeats_slots (by decide) d _ _) <| .cons (repeats_offVoltage d s) <|
    .cons (repeats_adcControl d s) <| .cons (repeats_slots (by decide) d _ _) .nil

theorem covers_settings (d : Device) (s : Settings) :
    List.Forall₂ (fun g a => Footprint.Covers a g.action.run) (settingGroups d s)
      settingFootprints :=
  List.forall₂_take 4 (covers_groups d s)

theorem covers_interrupts (d : Device) : interruptFootprint.Covers (interruptGroup d).action.run :=
  (covers_initChip d).andThen fun _ => .returns Outcome.written

/-- A register at a byte of its own. -/
def byteRevision (setup : UInt8 × UInt8) : Revision where
  field := .whole setup.1
  bits := setup.2
  fits := by
    have no_other : ~~~(0xFF : UInt8) = 0 := by decide
    rw [Field.whole, no_other, UInt8.and_zero]

theorem apply_byteRevision (setup : UInt8 × UInt8) (f : RegisterFile) :
    (byteRevision setup).apply f = f.set setup.1 setup.2 := by
  have no_other : ~~~(0xFF : UInt8) = 0 := by decide
  simp [Revision.apply, Revision.byte, Field.replace, byteRevision, Field.whole, no_other]

/-- On a bus that never fails, bytes stored one by one all arrive. -/
theorem run_writeEach (d : Device) (setups : List (UInt8 × UInt8)) (f : RegisterFile)
    (hosts : Nat → Bool) :
    ∃ events, MemoryChip.run ⟨f, .never, hosts⟩
        (setups.forM fun setup => d.writeByte setup.1 setup.2) =
          ⟨.ok (.ok ()), events,
            ⟨Revision.applyAll (setups.map byteRevision) f, .never, hosts⟩⟩ ∧
      events.filterMap Event.write? = setups.map fun setup => (setup.1, [setup.2]) := by
  induction setups generalizing f with
  | nil => exact ⟨[], rfl, rfl⟩
  | cons setup setups ih =>
    obtain ⟨events, hrun, hwrites⟩ := ih (f.set setup.1 setup.2)
    have first : MemoryChip.run ⟨f, .never, hosts⟩ (d.writeByte setup.1 setup.2) = _ :=
      MemoryChip.run_writeByte (q := .none) d setup.2 rfl f hosts
    refine ⟨⟨.busWrite d.address setup.1 [setup.2], .ok ()⟩ :: events, ?_, ?_⟩
    · change MemoryChip.run _ (d.writeByte setup.1 setup.2 >>= fun _ => setups.forM _) = _
      have rest : MemoryChip.run ⟨f.set setup.1 setup.2, .always .none, hosts⟩
          (setups.forM fun setup => d.writeByte setup.1 setup.2) = _ := hrun
      rw [MemoryChip.run_bind, first, Program.Run.andThen_ok, List.map_cons,
        Revision.applyAll_cons, apply_byteRevision]
      dsimp only
      rw [rest]
      rfl
    · rw [List.map_cons, ← hwrites]
      rfl

/-- The ten bytes that set up the interrupts: five masks, and all flags cleared. -/
def interruptWrites : List (UInt8 × List UInt8) := [
  (0x40, [0xD8]), (0x41, [0xFF]), (0x42, [0x00]), (0x43, [0x01]), (0x44, [0x00]),
  (0x48, [0xFF]), (0x49, [0xFF]), (0x4A, [0xFF]), (0x4B, [0xFF]), (0x4C, [0xFF])]

theorem interruptSetup_writes :
    interruptSetup.map (fun setup => (setup.1, [setup.2])) = interruptWrites := rfl

def interruptRevisions : List Revision := interruptSetup.map byteRevision

theorem interruptRevisions_apart : interruptRevisions.Pairwise Revision.Apart := by
  unfold Revision.Apart
  decide

/-- Setting up the interrupts writes ten bytes, whatever the chip holds. -/
theorem run_interrupts (d : Device) (f : RegisterFile) (hosts : Nat → Bool) :
    ∃ events, MemoryChip.run ⟨f, .never, hosts⟩ (interruptGroup d).action =
        ⟨.ok (.ok .written), events,
          ⟨Revision.applyAll interruptRevisions f, .never, hosts⟩⟩ ∧
      events.filterMap Event.write? = interruptWrites := by
  obtain ⟨events, hrun, hwrites⟩ := run_writeEach d interruptSetup f hosts
  have looked : MemoryChip.run ⟨f, .never, hosts⟩ (d.readByte Register.chipId) = _ :=
    MemoryChip.run_readByte (q := .none) d rfl f hosts
  have rest : MemoryChip.run ⟨f, .always .none, hosts⟩
      (interruptSetup.forM fun setup => d.writeByte setup.1 setup.2) = _ := hrun
  simp only [interruptGroup, initChip, MemoryChip.run_bind, looked, Program.Run.andThen_ok,
    MemoryChip.run_log, rest, MemoryChip.run_pure, List.cons_append, List.nil_append,
    List.append_nil]
  exact ⟨_, rfl, hwrites.trans interruptSetup_writes⟩

/-- Where the interrupts are set up already, setting them up changes nothing. -/
theorem interrupts_again (d : Device) {m n : MemoryChip} (hm : m = m.reliable)
    (hn : n = n.reliable)
    (agree : interruptFootprint.Agree (m.run (interruptGroup d).action).board n) :
    Counter.ofRun? (m.run (interruptGroup d).action) = some .written ∧
    Counter.ofRun? (n.run (interruptGroup d).action) = some .written ∧
    (n.run (interruptGroup d).action).writes = interruptWrites ∧
    (n.run (interruptGroup d).action).board = n := by
  obtain ⟨before, plan, hosts⟩ := m
  obtain ⟨after, plan', hosts'⟩ := n
  obtain rfl : plan = .never := congrArg MemoryChip.plan hm
  obtain rfl : plan' = .never := congrArg MemoryChip.plan hn
  obtain ⟨_, first, -⟩ := run_interrupts d before hosts
  obtain ⟨events, second, writes⟩ := run_interrupts d after hosts'
  rw [first] at agree
  have holds : ∀ v ∈ interruptRevisions, v.Holds after := by
    intro v hv
    have set_up := Revision.holds_applyAll interruptRevisions_apart before v hv
    obtain ⟨setup, hsetup, rfl⟩ := List.mem_map.mp hv
    have inside : (byteRevision setup).field.Inside interruptFootprint.writes :=
      Field.inside_of_mem (List.mem_map.mpr ⟨setup, hsetup, rfl⟩)
    exact (agree.registers.holds_iff (interruptFootprint.inside_reads inside)).mp set_up
  rw [first, second, Revision.applyAll_of_holds holds]
  exact ⟨rfl, rfl, writes, rfl⟩

end Pmic

namespace Rail

/-! ## The rails -/

theorem repeats_step (d : Device) (r : Rail) (s : Settings) (k : Step) (fair : Fair (k.action d r s)) :
    Repeats (.ofFields (k.fields r)) (k.action d r s) := by
  obtain ⟨-, result, idle⟩ | ⟨v, revised, update⟩ := k.action_cases d r s
  · exact .idle fair idle
  · rw [update]
    exact .update d (k.revisions_own r s v (by simp [revised])) v.bits

theorem repeats_configured (d : Device) (t : Config.Table) (r : Rail) :
    List.Forall₂ (fun g a => Repeats a g.action) (configuredGroups d t r)
      ((configuredFields t r).map .ofFields) := by
  unfold configuredGroups configuredFields
  cases Settings.ofTable? t r.name with
  | none => exact .nil
  | some s =>
    exact .cons (repeats_step d r s .voltage (fair_applyVoltage d r s)) <|
      .cons (repeats_step d r s .mode (fair_applyMode d r s)) <|
      .cons (repeats_step d r s .enable (fair_applyEnable d r s)) .nil

theorem repeats_table (d : Device) (t : Config.Table) (rails : List Rail) :
    List.Forall₂ (fun g a => Repeats a g.action) (tableGroups d t rails)
      ((tableFields t rails).map .ofFields) := by
  induction rails with
  | nil => exact .nil
  | cons r rails ih =>
    rw [tableFields, List.flatMap_cons, List.map_append]
    exact List.rel_append (repeats_configured d t r) ih

/-- The chip's own groups and the steps of the rails have no bit in common. -/
theorem chip_apart : ∀ a ∈ Pmic.groupFootprints, ∀ fs ∈ all.flatMap stepFields,
    a.Apart (.ofFields fs) := by
  decide +kernel

end Rail

namespace Board

theorem groupRuns_powerGroups (t : Config.Table) (m : MemoryChip) :
    let settings := Pmic.settingGroups .standard (.ofTable t)
    let interrupts := (afterGroups settings m).run (Pmic.interruptGroup .standard).action
    groupRuns (powerGroups t) m = groupRuns settings m ++
      interrupts :: groupRuns (Rail.tableGroups .standard t Rail.all) interrupts.board := by
  rw [powerGroups, Pmic.groups_eq, List.append_assoc, groupRuns_append]
  rfl

theorem afterGroups_powerGroups (t : Config.Table) (m : MemoryChip) :
    let settings := Pmic.settingGroups .standard (.ofTable t)
    let interrupts := (afterGroups settings m).run (Pmic.interruptGroup .standard).action
    afterGroups (powerGroups t) m =
      afterGroups (Rail.tableGroups .standard t Rail.all) interrupts.board := by
  rw [powerGroups, Pmic.groups_eq, List.append_assoc, afterGroups_append]
  rfl

/-- After a pass every group finds its fields as it has left them, so a second pass sets up the
interrupts and writes nothing else. -/
theorem powerGroups_again (t : Config.Table) {m : MemoryChip} (hm : m = m.reliable) :
    let n := afterGroups (powerGroups t) m
    RerunButOne Pmic.interruptWrites (groupRuns (powerGroups t) m) (groupRuns (powerGroups t) n) ∧
      afterGroups (powerGroups t) n = n := by
  intro n
  let settings := Pmic.settingGroups .standard (.ofTable t)
  let interrupts := Pmic.interruptGroup .standard
  let rails := Rail.tableGroups .standard t Rail.all
  let m₁ := afterGroups settings m
  let m₂ := (m₁.run interrupts.action).board
  have hm₁ : m₁ = m₁.reliable := afterGroups_reliable settings hm
  have hm₂ : m₂ = m₂.reliable := Program.board_reliable _ hm₁
  have hn : n = n.reliable := afterGroups_reliable _ hm
  have end_eq : n = afterGroups rails m₂ := afterGroups_powerGroups t m
  have settings_covered := Pmic.covers_settings .standard (.ofTable t)
  have rails_covered := Rail.covers_table .standard t Rail.all
  have rails_apart : ∀ a ∈ Pmic.groupFootprints, a.Agree m₂ n := by
    intro a ha
    rw [end_eq]
    refine agree_afterGroups rails_covered (fun b hb => ?_) m₂
    obtain ⟨fs, hfs, rfl⟩ := List.mem_map.mp hb
    exact (Rail.chip_apart a ha fs ((Rail.tableFields_sublist t Rail.all).subset hfs)).symm
  obtain ⟨settings_apart, -, interrupts_apart⟩ := List.pairwise_append.mp
    (show (Pmic.settingFootprints ++ [Pmic.interruptFootprint]).Pairwise Footprint.Apart from
      Pmic.groups_apart)
  have settings_agree : ∀ a ∈ Pmic.settingFootprints, a.Agree m₁ n := by
    intro a ha
    have apart := interrupts_apart a ha _ List.mem_cons_self
    have spared := (Pmic.covers_interrupts .standard).spares m₁
    exact (spared.agree apart.symm).trans (rails_apart a (List.mem_of_mem_take ha))
  have interrupts_agree : Pmic.interruptFootprint.Agree m₂ n :=
    rails_apart _ (by simp [Pmic.groupFootprints])
  obtain ⟨settings_rerun, settings_board⟩ := second_pass settings_covered
    (Pmic.repeats_settings .standard (.ofTable t)) settings_apart hm hn settings_agree
  obtain ⟨counted, counted', writes, interrupts_board⟩ :=
    Pmic.interrupts_again .standard hm₁ hn interrupts_agree
  obtain ⟨rails_rerun, rails_board⟩ := second_pass rails_covered
    (Rail.repeats_table .standard t Rail.all) (Rail.table_apart t) hm₂ hn
    fun a _ => end_eq ▸ .refl a n
  rw [groupRuns_powerGroups, groupRuns_powerGroups, afterGroups_powerGroups, settings_board,
    interrupts_board]
  exact ⟨.mk settings_rerun counted counted' writes rails_rerun, rails_board⟩

/-- On a chip that never fails, setting it up a second time writes the interrupt registers and
nothing else, changes no register, and finds all that the first time wrote or left unchanged to be
unchanged. -/
theorem second_power_up {t : Config.Table} (h : t.hasNode Pmic.node = true) (f : RegisterFile)
    (hosts : Nat → Bool) :
    let first := (initPower t).run MemoryChip.board ⟨f, .never, hosts⟩
    let second := (initPower t).run MemoryChip.board first.board
    ∃ t₁ t₂, first.outcome = .ok (some t₁) ∧ second.outcome = .ok (some t₂) ∧
      second.writes = Pmic.interruptWrites ∧ second.board = first.board ∧ t₂.written = 1 ∧
      t₂.skipped = t₁.skipped ∧ t₂.incomplete = t₁.incomplete ∧ t₂.failed = t₁.failed ∧
      t₂.total = t₁.total := by
  intro first second
  let m : MemoryChip := ⟨f, .never, hosts⟩
  obtain ⟨-, t₁, before, hfirst, first_counts⟩ := initPower_counts h m
  have first_board : first.board = afterGroups (powerGroups t) m := congrArg Program.Run.board hfirst
  obtain ⟨through, t₂, events, hsecond, second_counts⟩ := initPower_counts h first.board
  obtain ⟨again, board⟩ := powerGroups_again t (m := m) rfl
  rw [← first_board] at again board
  have second_writes := through.writes
  rw [again.writes_eq] at second_writes
  exact ⟨t₁, t₂, congrArg Program.Run.outcome hfirst, congrArg Program.Run.outcome hsecond,
    second_writes, (congrArg Program.Run.board hsecond).trans board,
    first_counts.rerun again second_counts⟩

/-- A chip with a value out of range, and a rail whose voltage is left to be rounded. -/
theorem second_power_up_partly_rejected :
    let t : Config.Table := ⟨[⟨Pmic.node, [⟨"axp228,voff_set", .int 9⟩]⟩,
      ⟨Rail.dcdc2.path, [⟨"axp228,vol", .int 1115⟩, ⟨"axp228,on", .int 1⟩]⟩]⟩
    let first := (initPower t).run MemoryChip.board ⟨.zero, .never, fun _ => true⟩
    let second := (initPower t).run MemoryChip.board first.board
    t.hasNode Pmic.node = true ∧
    ∃ t₁ t₂, first.outcome = .ok (some t₁) ∧ second.outcome = .ok (some t₂) ∧
      second.writes = Pmic.interruptWrites ∧ second.board = first.board ∧ t₂.written = 1 ∧
      t₂.skipped = t₁.skipped ∧ t₂.incomplete = t₁.incomplete ∧ t₂.failed = t₁.failed ∧
      t₂.total = t₁.total := by
  intro t first second
  have hnode : t.hasNode Pmic.node = true := by decide +kernel
  exact ⟨hnode, second_power_up hnode .zero fun _ => true⟩

end Board

end Bringup
