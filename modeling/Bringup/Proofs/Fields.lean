import Bringup.Proofs.Update

/-! Fields that share no bit, and register files that agree on some fields or differ in no
others. Both kinds of agreement are read bit by bit. -/
namespace Bringup

open Bench (RegisterFile)

namespace Chip

namespace Field

/-- The fields have no bit in common. -/
def Apart (a b : Field) : Prop := a.register = b.register → a.mask &&& b.mask = 0

instance (a b : Field) : Decidable (a.Apart b) :=
  inferInstanceAs (Decidable (a.register = b.register → a.mask &&& b.mask = 0))

theorem Apart.symm {a b : Field} (h : a.Apart b) : b.Apart a := by
  intro hr
  rw [UInt8.and_comm]
  exact h hr.symm

/-- A whole register. -/
def whole (r : UInt8) : Field := ⟨r, 0xFF⟩

/-- The field is part of one of the fields. -/
def Inside (a : Field) (fields : List Field) : Prop :=
  ∃ b ∈ fields, b.register = a.register ∧ a.mask &&& ~~~b.mask = 0

instance (a : Field) (fields : List Field) : Decidable (a.Inside fields) :=
  inferInstanceAs (Decidable (∃ b ∈ fields, b.register = a.register ∧ a.mask &&& ~~~b.mask = 0))

theorem inside_of_mem {a : Field} {fields : List Field} (h : a ∈ fields) : a.Inside fields :=
  ⟨a, h, rfl, by simp⟩

theorem bit_whole (r : UInt8) : ∀ i < 8, bit (whole r).mask i = true := by
  change ∀ i < 8, bit 0xFF i = true
  decide

/-- All of a register is more than any field of it. -/
theorem Inside.of_whole {a : Field} {fields : List Field} (h : (whole a.register).Inside fields) :
    a.Inside fields := by
  obtain ⟨b, hb, hr, hmask⟩ := h
  exact ⟨b, hb, hr, within_iff.mpr fun i hi _ => within_iff.mp hmask i hi (bit_whole _ i hi)⟩

/-- Bit `i` of a register lies in one of the fields. -/
def Cover (fields : List Field) (r : UInt8) (i : Nat) : Prop :=
  ∃ a ∈ fields, a.register = r ∧ bit a.mask i = true

theorem Inside.cover {a : Field} {fields : List Field} (h : a.Inside fields) {i : Nat}
    (hi : i < 8) (ha : bit a.mask i = true) : Cover fields a.register i := by
  obtain ⟨b, hb, hr, hmask⟩ := h
  exact ⟨b, hb, hr, within_iff.mp hmask i hi ha⟩

theorem Cover.mono {fields others : List Field} (h : ∀ a ∈ fields, a.Inside others) {r : UInt8}
    {i : Nat} (hi : i < 8) (ha : Cover fields r i) : Cover others r i := by
  obtain ⟨a, hmem, rfl, hbit⟩ := ha
  exact (h a hmem).cover hi hbit

/-- Fields that are pairwise apart never cover one bit. -/
theorem Cover.not_both {fields others : List Field} (h : ∀ a ∈ fields, ∀ b ∈ others, a.Apart b)
    {r : UInt8} {i : Nat} (ha : Cover fields r i) : ¬ Cover others r i := by
  rintro ⟨b, hb, hr, hbit⟩
  obtain ⟨a, hmem, rfl, hbit'⟩ := ha
  have := congrArg (bit · i) (h a hmem b hb hr.symm)
  simp [bit_and, bit_zero, hbit, hbit'] at this

end Field

end Chip

namespace Bench.RegisterFile

open Chip (Field Revision bit bit_and bit_ext)

/-- Each of the fields holds the same in both. -/
def AgreeOn (fields : List Field) (f g : RegisterFile) : Prop :=
  ∀ a ∈ fields, f.get a.register &&& a.mask = g.get a.register &&& a.mask

/-- Nothing differs but in the fields. -/
def AgreeOutside (fields : List Field) (f g : RegisterFile) : Prop :=
  ∀ r, ∀ i < 8, ¬ Field.Cover fields r i → bit (f.get r) i = bit (g.get r) i

theorem agreeOn_iff {fields : List Field} {f g : RegisterFile} :
    AgreeOn fields f g ↔
      ∀ r, ∀ i < 8, Field.Cover fields r i → bit (f.get r) i = bit (g.get r) i := by
  constructor
  · rintro h r i - ⟨a, ha, rfl, hbit⟩
    have := congrArg (bit · i) (h a ha)
    simpa [bit_and, hbit] using this
  · intro h a ha
    apply bit_ext
    intro i hi
    rw [bit_and, bit_and]
    cases hbit : bit a.mask i with
    | false => simp
    | true => rw [h a.register i hi ⟨a, ha, rfl, hbit⟩]

variable {fields others : List Field} {f g k : RegisterFile}

theorem AgreeOn.refl (fields : List Field) (f : RegisterFile) : AgreeOn fields f f := fun _ _ => rfl

theorem AgreeOn.symm (h : AgreeOn fields f g) : AgreeOn fields g f := fun a ha => (h a ha).symm

theorem AgreeOn.trans (h : AgreeOn fields f g) (h' : AgreeOn fields g k) : AgreeOn fields f k :=
  fun a ha => (h a ha).trans (h' a ha)

theorem AgreeOn.mono (h : AgreeOn others f g) (inside : ∀ a ∈ fields, a.Inside others) :
    AgreeOn fields f g :=
  agreeOn_iff.mpr fun r i hi ha => agreeOn_iff.mp h r i hi (ha.mono inside hi)

/-- A register all of which lies in the fields. -/
theorem AgreeOn.get_eq (h : AgreeOn fields f g) {r : UInt8} (hr : (Field.whole r).Inside fields) :
    f.get r = g.get r :=
  bit_ext fun i hi => agreeOn_iff.mp h r i hi (hr.cover hi (Field.bit_whole r i hi))

/-- A field inside of the fields. -/
theorem AgreeOn.and_eq (h : AgreeOn fields f g) {a : Field} (ha : a.Inside fields) :
    f.get a.register &&& a.mask = g.get a.register &&& a.mask := by
  have single : AgreeOn [a] f g := h.mono (by simpa using ha)
  exact single a List.mem_cons_self

theorem AgreeOn.set (h : AgreeOn fields f g) (r byte : UInt8) :
    AgreeOn fields (f.set r byte) (g.set r byte) := by
  intro a ha
  by_cases hr : r = a.register
  · rw [← hr, get_set_self, get_set_self]
  · rw [get_set_of_ne _ _ hr, get_set_of_ne _ _ hr]
    exact h a ha

theorem AgreeOn.apply (h : AgreeOn fields f g) (v : Revision) :
    AgreeOn fields (v.apply f) (v.apply g) := by
  rw [agreeOn_iff] at h ⊢
  intro r i hi hr
  have before := h r i hi hr
  rw [v.get_apply, v.get_apply]
  split
  · simp only [Revision.byte, Field.bit_replace _ _ _ hi, before]
  · exact before

/-- Whether a revision holds is a matter of its own field. -/
theorem AgreeOn.holds_iff (h : AgreeOn fields f g) {v : Revision} (hv : v.field.Inside fields) :
    v.Holds f ↔ v.Holds g := by
  rw [Revision.Holds, Revision.Holds, h.and_eq hv]

theorem AgreeOutside.refl (fields : List Field) (f : RegisterFile) : AgreeOutside fields f f :=
  fun _ _ _ _ => rfl

theorem AgreeOutside.trans (h : AgreeOutside fields f g) (h' : AgreeOutside fields g k) :
    AgreeOutside fields f k :=
  fun r i hi hr => (h r i hi hr).trans (h' r i hi hr)

theorem AgreeOutside.mono (h : AgreeOutside fields f g) (inside : ∀ a ∈ fields, a.Inside others) :
    AgreeOutside others f g :=
  fun r i hi hr => h r i hi fun ha => hr (ha.mono inside hi)

/-- Fields apart from all that differ. -/
theorem AgreeOutside.agreeOn (h : AgreeOutside fields f g)
    (apart : ∀ a ∈ fields, ∀ b ∈ others, a.Apart b) : AgreeOn others f g :=
  agreeOn_iff.mpr fun r i hi hb => h r i hi fun ha => Field.Cover.not_both apart ha hb

/-- A revised register differs in the revised field only. -/
theorem agreeOutside_apply {v : Revision} (h : v.field.Inside fields) (f : RegisterFile) :
    AgreeOutside fields f (v.apply f) := by
  intro r i hi hr
  rw [v.get_apply]
  split
  · rename_i hreg
    subst hreg
    have hmask : bit v.field.mask i = false := by
      cases hb : bit v.field.mask i with
      | false => rfl
      | true => exact absurd (h.cover hi hb) hr
    have hbits : bit v.bits i = false := by
      cases hb : bit v.bits i with
      | false => rfl
      | true => simp [v.bits_within hi hb] at hmask
    simp [Revision.byte, Field.bit_replace _ _ _ hi, hmask, hbits]
  · rfl

theorem agreeOutside_applyAll {vs : List Revision} (h : ∀ v ∈ vs, v.field.Inside fields)
    (f : RegisterFile) : AgreeOutside fields f (Revision.applyAll vs f) := by
  induction vs generalizing f with
  | nil => exact .refl fields f
  | cons v vs ih =>
    obtain ⟨hv, hvs⟩ := List.forall_mem_cons.mp h
    exact (agreeOutside_apply hv f).trans (ih hvs (v.apply f))

theorem AgreeOn.applyAll (h : AgreeOn fields f g) (vs : List Revision) :
    AgreeOn fields (Revision.applyAll vs f) (Revision.applyAll vs g) := by
  induction vs generalizing f g with
  | nil => exact h
  | cons v vs ih => exact ih (h.apply v)

/-! ### Keys that have fields of their own and revise no others -/

section
variable {κ : Type} {keys : List κ} {fields : κ → List Field} {revisions : κ → List Revision}

theorem inside_flatMap (own : ∀ k, ∀ v ∈ revisions k, v.field.Inside (fields k)) :
    ∀ v ∈ keys.flatMap revisions, v.field.Inside (keys.flatMap fields) := by
  intro v hv
  obtain ⟨k, hk, hv⟩ := List.mem_flatMap.mp hv
  obtain ⟨b, hb, inside⟩ := own k v hv
  exact ⟨b, List.mem_flatMap.mpr ⟨k, hk, hb⟩, inside⟩

/-- What becomes of the fields of a key is what its own revisions make of them. -/
theorem agreeOn_applyAll_flatMap (own : ∀ k, ∀ v ∈ revisions k, v.field.Inside (fields k))
    (apart : keys.Pairwise fun k l => ∀ a ∈ fields k, ∀ b ∈ fields l, a.Apart b)
    (f : RegisterFile) {k : κ} (hk : k ∈ keys) :
    AgreeOn (fields k) (Revision.applyAll (revisions k) f)
      (Revision.applyAll (keys.flatMap revisions) f) := by
  induction keys generalizing f with
  | nil => cases hk
  | cons l keys ih =>
    obtain ⟨hl, hkeys⟩ := List.pairwise_cons.mp apart
    rw [List.flatMap_cons, Revision.applyAll_append]
    rcases List.mem_cons.mp hk with rfl | hk
    · refine (agreeOutside_applyAll (inside_flatMap own) _).agreeOn fun a ha b hb => ?_
      obtain ⟨x, hx, ha⟩ := List.mem_flatMap.mp ha
      exact (hl x hx b hb a ha).symm
    · have before : AgreeOn (fields k) f (Revision.applyAll (revisions l) f) :=
        (agreeOutside_applyAll (own l) f).agreeOn (hl k hk)
      exact (before.applyAll (revisions k)).trans (ih hkeys _ hk)

/-- So the order of the keys does not matter. -/
theorem applyAll_flatMap_perm {keys' : List κ} (perm : keys'.Perm keys)
    (own : ∀ k, ∀ v ∈ revisions k, v.field.Inside (fields k))
    (apart : keys.Pairwise fun k l => ∀ a ∈ fields k, ∀ b ∈ fields l, a.Apart b)
    (f : RegisterFile) :
    Revision.applyAll (keys'.flatMap revisions) f =
      Revision.applyAll (keys.flatMap revisions) f := by
  have apart' : keys'.Pairwise fun k l => ∀ a ∈ fields k, ∀ b ∈ fields l, a.Apart b :=
    perm.symm.pairwise apart fun h a ha b hb => (h b hb a ha).symm
  apply RegisterFile.ext
  intro r
  apply bit_ext
  intro i hi
  by_cases hr : Field.Cover (keys.flatMap fields) r i
  · obtain ⟨a, ha, hcover⟩ := hr
    obtain ⟨k, hk, ha⟩ := List.mem_flatMap.mp ha
    have left := agreeOn_applyAll_flatMap own apart' f (perm.mem_iff.mpr hk)
    have right := agreeOn_applyAll_flatMap own apart f hk
    exact agreeOn_iff.mp (left.symm.trans right) r i hi ⟨a, ha, hcover⟩
  · have hr' : ¬ Field.Cover (keys'.flatMap fields) r i := by
      rintro ⟨a, ha, hcover⟩
      exact hr ⟨a, (perm.flatMap_right fields).mem_iff.mp ha, hcover⟩
    have inside : ∀ v ∈ keys.flatMap revisions, _ := inside_flatMap own
    have inside' : ∀ v ∈ keys'.flatMap revisions, _ := inside_flatMap own
    have left := agreeOutside_applyAll inside' f r i hi hr'
    have right := agreeOutside_applyAll inside f r i hi hr
    exact left.symm.trans right

end

/-- Setting a register changes that register only. -/
theorem agreeOutside_set {r : UInt8} (h : (Field.whole r).Inside fields) (f : RegisterFile)
    (byte : UInt8) : AgreeOutside fields f (f.set r byte) := by
  intro r' i hi hr
  by_cases hreg : r = r'
  · subst hreg
    exact absurd (h.cover hi (Field.bit_whole r i hi)) hr
  · rw [f.get_set_of_ne byte hreg]

end Bench.RegisterFile

end Bringup
