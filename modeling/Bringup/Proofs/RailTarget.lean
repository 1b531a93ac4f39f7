import Bringup.Proofs.RailSteps
import Mathlib.Data.List.Find
import Mathlib.Data.List.Nodup

/-! The rails after a pass over a table. Each configured property decides its own field, and
nothing else on the chip changes. Neither the order of the rails nor that of the table's nodes
makes a difference. -/
namespace Bringup

open Bench (Faults MemoryChip RegisterFile)
open Bench.RegisterFile (AgreeOn AgreeOutside)
open Chip
open Charger (flagRevision)

/-! ## Nodes in any order -/

namespace Config.Table

/-- Among nodes of different paths it does not matter which comes first. -/
theorem find?_perm {t t' : Table} (perm : t'.nodes.Perm t.nodes)
    (distinct : (t.nodes.map (·.path)).Nodup) (path name : String) :
    t'.find? path name = t.find? path name := by
  have single : {node ∈ t'.nodes | (node.path == path) = true}.Subsingleton := by
    rintro a ⟨ha, hpath⟩ b ⟨hb, hpath'⟩
    have same : a.path = b.path := by rw [eq_of_beq hpath, eq_of_beq hpath']
    exact List.inj_on_of_nodup_map distinct (perm.mem_iff.mp ha) (perm.mem_iff.mp hb) same
  rw [find?, find?, List.find?_eq_find?_of_perm perm single]

theorem hasNode_perm {t t' : Table} (perm : t'.nodes.Perm t.nodes) (path : String) :
    t'.hasNode path = t.hasNode path := by
  rw [hasNode, hasNode, perm.any_eq]

/-- Without a node there are no properties. -/
theorem int?_of_no_node {t : Table} {path : String} (h : t.hasNode path = false) (name : String) :
    t.int? path name = none := by
  have none_found : t.nodes.find? (·.path == path) = none := by
    rw [List.find?_eq_none]
    intro node hnode hpath
    rw [hasNode, List.any_eq_false] at h
    exact h node hnode hpath
  rw [int?, find?, none_found]
  rfl

end Config.Table

namespace Rail

/-! ## The settings a table has for a rail -/

/-- The path of the rail's node. -/
def path (r : Rail) : String := node ++ "/" ++ r.name

theorem path?_name (r : Rail) : path? r.name = some r.path := by cases r <;> decide +kernel

/-- What the rail's node says. Without one there is nothing. -/
def Settings.ofNode (t : Config.Table) (r : Rail) : Settings where
  voltage := t.int? r.path "axp228,vol"
  enable := t.int? r.path "axp228,on"
  mode := t.int? r.path "axp228,work_mode"

theorem ofTable?_name (t : Config.Table) (r : Rail) :
    Settings.ofTable? t r.name = if t.hasNode r.path then some (.ofNode t r) else none := by
  rw [Settings.ofTable?, path?_name, Settings.ofNode, Option.bind_eq_bind, Option.bind_some]
  cases t.hasNode r.path <;> rfl

theorem ofNode_of_no_node {t : Config.Table} {r : Rail} (h : t.hasNode r.path = false) :
    Settings.ofNode t r = ⟨none, none, none⟩ := by
  simp only [Settings.ofNode, Config.Table.int?_of_no_node h]

/-- All that a table has revised of the rails given. -/
def tableRevisions (t : Config.Table) (rails : List Rail) : List Revision :=
  rails.flatMap fun r => r.revisions (.ofNode t r)

theorem revisions_of_no_node {t : Config.Table} {r : Rail} (h : t.hasNode r.path = false) :
    r.revisions (.ofNode t r) = [] := by
  rw [ofNode_of_no_node h]
  cases hmode : r.modeField? <;> simp [revisions, Step.all, Step.revisions, hmode]

theorem afterGroups_configured (d : Device) (t : Config.Table) (r : Rail) (f : RegisterFile)
    (hosts : Nat → Bool) :
    afterGroups (configuredGroups d t r) ⟨f, .never, hosts⟩ =
      ⟨Revision.applyAll (r.revisions (.ofNode t r)) f, .never, hosts⟩ := by
  rw [configuredGroups, ofTable?_name]
  cases h : t.hasNode r.path with
  | false =>
    rw [revisions_of_no_node h]
    rfl
  | true => exact afterGroups_rail d r (.ofNode t r) f hosts

theorem afterGroups_table (d : Device) (t : Config.Table) (rails : List Rail) (f : RegisterFile)
    (hosts : Nat → Bool) :
    afterGroups (tableGroups d t rails) ⟨f, .never, hosts⟩ =
      ⟨Revision.applyAll (tableRevisions t rails) f, .never, hosts⟩ := by
  induction rails generalizing f with
  | nil => rfl
  | cons r rails ih =>
    rw [tableGroups, List.flatMap_cons, afterGroups_append, afterGroups_configured, tableRevisions,
      List.flatMap_cons, Revision.applyAll_append]
    exact ih _

/-! ## The registers after the pass -/

/-- What becomes of the fields of a step is up to the property it applies. -/
theorem agreeOn_table (t : Config.Table) (r : Rail) (k : Step) (f : RegisterFile) :
    AgreeOn (k.fields r) (Revision.applyAll (k.revisions r (.ofNode t r)) f)
      (Revision.applyAll (tableRevisions t all) f) := by
  have own (r : Rail) := r.revisions_own (.ofNode t r)
  have rail := RegisterFile.agreeOn_applyAll_flatMap own rails_apart f r.mem_all
  have inside : ∀ a ∈ k.fields r, a.Inside r.stepFields.flatten := fun a ha =>
    Field.inside_of_mem (List.mem_flatMap.mpr ⟨k, k.mem_all, ha⟩)
  exact (r.agreeOn_step (.ofNode t r) k f).trans (rail.mono inside)

def converters : List Rail := [dcdc1, dcdc2, dcdc3, dcdc4, dcdc5]

/-- The converters have a bit each for their mode. -/
theorem mode_of_converter {r : Rail} (h : r ∈ converters) :
    ∃ a, r.modeField? = some a ∧ a.register = Register.converterMode ∧ a.mask ≠ 0 := by
  revert h
  cases r <;> decide

/-- The rail after a pass that found its registers as they are in `f`: each property its node has
decides its own field, and every other field of the rail is as it was. -/
structure Follows (t : Config.Table) (r : Rail) (f g : RegisterFile) : Prop where
  voltage : ∀ mv, t.int? r.path "axp228,vol" = some mv → r.range.Contains mv → r.SetTo mv g
  voltage_kept : (∀ mv, t.int? r.path "axp228,vol" = some mv → ¬ r.range.Contains mv) →
    AgreeOn [r.voltageField] f g
  mode : ∀ mode, t.int? r.path "axp228,work_mode" = some mode → r ∈ converters →
    ∃ a ∈ r.modeField?, a.register = Register.converterMode ∧
      (g.get a.register &&& a.mask != 0) = (mode != 0)
  mode_kept : t.int? r.path "axp228,work_mode" = none → AgreeOn r.modeField?.toList f g
  enable : ∀ on, t.int? r.path "axp228,on" = some on →
    (g.get r.enableField.register &&& r.enableField.mask != 0) = (on != 0)
  enable_kept : t.int? r.path "axp228,on" = none → AgreeOn [r.enableField] f g

/-- A flag that holds shows in its field, unless that has no bits. -/
theorem shows_flag {a : Field} (bits : a.mask ≠ 0) {on : Int32} {f : RegisterFile}
    (h : (flagRevision a on).Holds f) : (f.get a.register &&& a.mask != 0) = (on != 0) := by
  have value : f.get a.register &&& a.mask = a.fill (on != 0) := h
  rw [value, Field.fill]
  cases on != 0 <;> simp [bits]

theorem follows (t : Config.Table) (r : Rail) (f : RegisterFile) :
    r.Follows t f (Revision.applyAll (tableRevisions t all) f) := by
  have agree (k : Step) := agreeOn_table t r k f
  have holds (k : Step) {v : Revision} (h : k.revisions r (.ofNode t r) = [v])
      (inside : v.field ∈ k.fields r) : v.Holds (Revision.applyAll (tableRevisions t all) f) := by
    have alone := agree k
    rw [h] at alone
    rw [Revision.Holds, ← alone v.field inside]
    exact v.holds_apply f
  have kept (k : Step) (h : k.revisions r (.ofNode t r) = []) :
      AgreeOn (k.fields r) f (Revision.applyAll (tableRevisions t all) f) := by
    have alone := agree k
    rwa [h] at alone
  have enable_bits : r.enableField.mask ≠ 0 := by cases r <;> decide
  constructor
  · intro mv configured inside
    refine (setTo_iff inside _).mpr (holds .voltage ?_ List.mem_cons_self)
    simp [Step.revisions, Settings.ofNode, configured, inside]
  · intro outside
    refine kept .voltage ?_
    cases configured : t.int? r.path "axp228,vol" with
    | none => simp [Step.revisions, Settings.ofNode, configured]
    | some mv => simp [Step.revisions, Settings.ofNode, configured, outside mv configured]
  · intro mode configured converter
    obtain ⟨a, ha, register, bits⟩ := mode_of_converter converter
    refine ⟨a, ha, register, shows_flag bits (holds .mode ?_ (Option.mem_toList.mpr ha))⟩
    simp [Step.revisions, Settings.ofNode, configured, ha]
  · intro configured
    refine kept .mode ?_
    cases hmode : r.modeField? <;> simp [Step.revisions, Settings.ofNode, configured, hmode]
  · intro on configured
    refine shows_flag enable_bits (holds .enable ?_ List.mem_cons_self)
    simp [Step.revisions, Settings.ofNode, configured]
  · intro configured
    refine kept .enable ?_
    simp [Step.revisions, Settings.ofNode, configured]

/-! ## Rails and nodes in any order -/

/-- A pass over the table that takes the rails in some order. -/
def applyInOrder (d : Device) (t : Config.Table) (rails : List Rail) : Program Tally :=
  rails.foldlM (applyConfigured d t) Tally.empty

theorem applyInOrder_all (d : Device) (t : Config.Table) : applyInOrder d t all = applyAll d t :=
  rfl

theorem applyInOrder_run (d : Device) (t : Config.Table) {rails : List Rail} (perm : rails.Perm all)
    (f : RegisterFile) (hosts : Nat → Bool) :
    ∃ tally events, (applyInOrder d t rails).run MemoryChip.board ⟨f, .never, hosts⟩ =
      ⟨.ok tally, events, ⟨Revision.applyAll (tableRevisions t all) f, .never, hosts⟩⟩ := by
  have room : Tally.empty.total + 3 * rails.length ≤ 255 := by
    rw [perm.length_eq]
    change 0 + 48 ≤ 255
    omega
  have through := pass_through d t rails room ⟨f, .never, hosts⟩
  obtain ⟨tally, htally⟩ := through.ends
  have own (r : Rail) := r.revisions_own (.ofNode t r)
  have order := RegisterFile.applyAll_flatMap_perm perm own rails_apart f
  have board := through.board
  rw [afterGroups_table, tableRevisions, order] at board
  refine ⟨tally, ((applyInOrder d t rails).run MemoryChip.board ⟨f, .never, hosts⟩).events, ?_⟩
  rw [← htally, tableRevisions, ← board]
  rfl

theorem applyInOrder_perm (d : Device) {t t' : Config.Table} (perm : t'.nodes.Perm t.nodes)
    (distinct : (t.nodes.map (·.path)).Nodup) (rails : List Rail) :
    applyInOrder d t' rails = applyInOrder d t rails := by
  have node (r : Rail) : Settings.ofNode t' r = .ofNode t r := by
    simp only [Settings.ofNode, Config.Table.int?, Config.Table.find?_perm perm distinct]
  have rail : applyConfigured d t' = applyConfigured d t := by
    funext tally r
    rw [applyConfigured, applyConfigured, ofTable?_name, ofTable?_name, node,
      Config.Table.hasNode_perm perm]
  rw [applyInOrder, applyInOrder, rail]

/-- On a chip of plain memory a pass over a table brings every rail to what its node says, and
leaves the rails without a node and all else on the chip alone. Taking the rails in another order
comes to the same, and so does another order of nodes whose paths are distinct. -/
theorem rails_follow_table (d : Device) (t : Config.Table) (f : RegisterFile)
    (hosts : Nat → Bool) :
    ∃ tally events g,
      (applyAll d t).run MemoryChip.board ⟨f, .never, hosts⟩ =
        ⟨.ok tally, events, ⟨g, .never, hosts⟩⟩ ∧
      (∀ r : Rail, r.Follows t f g) ∧
      (∀ r : Rail, t.hasNode r.path = false → AgreeOn r.stepFields.flatten f g) ∧
      AgreeOutside (all.flatMap (·.stepFields.flatten)) f g ∧
      (∀ rails : List Rail, rails.Perm all → ∃ tally events,
        (applyInOrder d t rails).run MemoryChip.board ⟨f, .never, hosts⟩ =
          ⟨.ok tally, events, ⟨g, .never, hosts⟩⟩) ∧
      ∀ t' : Config.Table, t'.nodes.Perm t.nodes → (t.nodes.map (·.path)).Nodup →
        ∀ rails : List Rail, applyInOrder d t' rails = applyInOrder d t rails := by
  obtain ⟨tally, events, hrun⟩ := applyInOrder_run d t (List.Perm.refl all) f hosts
  rw [applyInOrder_all] at hrun
  have own (r : Rail) := r.revisions_own (.ofNode t r)
  refine ⟨tally, events, _, hrun, fun r => follows t r f, ?_, ?_,
    fun rails perm => applyInOrder_run d t perm f hosts,
    fun t' perm distinct rails => applyInOrder_perm d perm distinct rails⟩
  · intro r absent
    have alone := RegisterFile.agreeOn_applyAll_flatMap own rails_apart f r.mem_all
    rwa [revisions_of_no_node absent] at alone
  · exact RegisterFile.agreeOutside_applyAll (RegisterFile.inside_flatMap own) f

/-- A converter that is switched on and a regulator that is switched off, from nodes and rails in
reverse. -/
theorem reversed_table_followed :
    let converter : Config.Node := ⟨"voltage-regulators/dcdc1",
      [⟨"axp228,vol", .int 3300⟩, ⟨"axp228,on", .int 1⟩, ⟨"axp228,work_mode", .int 1⟩]⟩
    let regulator : Config.Node := ⟨"voltage-regulators/aldo2",
      [⟨"axp228,vol", .int 1800⟩, ⟨"axp228,on", .int 0⟩]⟩
    let f := RegisterFile.zero.set Register.railEnable1 0x80
    ∃ tally events g,
      (applyInOrder .standard ⟨[regulator, converter]⟩ all.reverse).run MemoryChip.board
          ⟨f, .never, fun _ => true⟩ =
        ⟨.ok tally, events, ⟨g, .never, fun _ => true⟩⟩ ∧
      dcdc1.SetTo 3300 g ∧ aldo2.SetTo 1800 g ∧
      (g.get Register.converterMode &&& 0x01 != 0) = true ∧
      (g.get Register.railEnable1 &&& 0x02 != 0) = true ∧
      (g.get Register.railEnable1 &&& 0x80 != 0) = false ∧
      AgreeOn dcdc3.stepFields.flatten f g := by
  intro converter regulator f
  let t : Config.Table := ⟨[converter, regulator]⟩
  obtain ⟨-, -, g, -, followed, absent, -, order, nodes⟩ :=
    rails_follow_table .standard t f fun _ => true
  obtain ⟨tally, events, hrun⟩ := order all.reverse (List.reverse_perm all)
  have swapped := nodes ⟨[regulator, converter]⟩ (.swap converter regulator [])
    (by decide +kernel) all.reverse
  refine ⟨tally, events, g, ?_, ?_, ?_, ?_, ?_, ?_, ?_⟩
  · rw [swapped]
    exact hrun
  · exact (followed dcdc1).voltage 3300 (by decide +kernel) (by decide)
  · exact (followed aldo2).voltage 1800 (by decide +kernel) (by decide)
  · obtain ⟨a, ha, -, forced⟩ := (followed dcdc1).mode 1 (by decide +kernel) (by decide)
    cases ha
    exact forced
  · exact (followed dcdc1).enable 1 (by decide +kernel)
  · exact (followed aldo2).enable 0 (by decide +kernel)
  · exact absent dcdc3 (by decide +kernel)

end Rail

end Bringup
