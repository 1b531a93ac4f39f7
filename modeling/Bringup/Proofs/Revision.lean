import Bringup.Chip.Patch
import Bringup.Proofs.Passes
import Mathlib.Data.List.Forall2

/-! Conditional updates as revisions: a field, and the bits it is to hold. Revising twice is
revising once, and revisions of fields that share no bit do not disturb each other. -/
namespace Bringup

open Bench (Faults MemoryChip RegisterFile)

namespace Chip

/-! ## Bytes bit by bit -/

def bit (byte : UInt8) (i : Nat) : Bool := byte.toBitVec.getLsbD i

theorem bit_ext {a b : UInt8} (h : ∀ i < 8, bit a i = bit b i) : a = b :=
  UInt8.toBitVec_inj.mp (BitVec.eq_of_getLsbD_eq h)

theorem bit_zero (i : Nat) : bit 0 i = false := by simp [bit]

theorem bit_and (a b : UInt8) (i : Nat) : bit (a &&& b) i = (bit a i && bit b i) := by simp [bit]

theorem bit_or (a b : UInt8) (i : Nat) : bit (a ||| b) i = (bit a i || bit b i) := by simp [bit]

theorem bit_not (a : UInt8) {i : Nat} (h : i < 8) : bit (~~~a) i = !bit a i := by simp [bit, h]

/-- The bits stay within the mask. -/
theorem within_iff {bits mask : UInt8} :
    bits &&& ~~~mask = 0 ↔ ∀ i < 8, bit bits i = true → bit mask i = true := by
  constructor
  · intro h i hi hb
    have := congrArg (bit · i) h
    simpa [bit_and, bit_not _ hi, bit_zero, hb] using this
  · intro h
    apply bit_ext
    intro i hi
    rw [bit_and, bit_not _ hi, bit_zero]
    cases hb : bit bits i with
    | false => rfl
    | true => simp [h i hi hb]

theorem or_and_distrib (a b c : UInt8) : (a ||| b) &&& c = (a &&& c) ||| (b &&& c) := by
  apply bit_ext
  intro i _
  simp only [bit_and, bit_or]
  cases bit c i <;> simp

theorem or_and_self (a b : UInt8) : (a ||| b) &&& b = b := by
  apply bit_ext
  intro i _
  rw [bit_and, bit_or]
  cases bit b i <;> simp

theorem Field.bit_replace (f : Field) (byte bits : UInt8) {i : Nat} (h : i < 8) :
    bit (f.replace byte bits) i = (bit byte i && !bit f.mask i || bit bits i) := by
  rw [replace, bit_or, bit_and, bit_not _ h]

/-- A field, and bits that fit into it. -/
structure Revision where
  field : Field
  bits : UInt8
  fits : bits &&& ~~~field.mask = 0

namespace Revision

def Holds (v : Revision) (f : RegisterFile) : Prop :=
  f.get v.field.register &&& v.field.mask = v.bits

def byte (v : Revision) (b : UInt8) : UInt8 := v.field.replace b v.bits

def apply (v : Revision) (f : RegisterFile) : RegisterFile :=
  f.set v.field.register (v.byte (f.get v.field.register))

def applyAll (vs : List Revision) (f : RegisterFile) : RegisterFile :=
  vs.foldl (fun f v => v.apply f) f

/-- Two revisions that have no bit of any register in common. -/
def Apart (v w : Revision) : Prop :=
  v.field.register = w.field.register → v.field.mask &&& w.field.mask = 0

/-- The revision stays inside a field. -/
def Within (v : Revision) (f : Field) : Prop :=
  v.field.register = f.register ∧ v.field.mask &&& ~~~f.mask = 0

theorem within_self (v : Revision) : v.Within v.field := ⟨rfl, by simp⟩

/-- Fields without a common bit keep the revisions inside of them apart. -/
theorem Within.apart {v w : Revision} {a b : Field} (hv : v.Within a) (hw : w.Within b)
    (h : a.register = b.register → a.mask &&& b.mask = 0) : Apart v w := by
  intro hr
  have hab := h (by rw [← hv.1, hr, hw.1])
  apply bit_ext
  intro i hi
  have hd := congrArg (bit · i) hab
  have := within_iff.mp hv.2 i hi
  have := within_iff.mp hw.2 i hi
  simp only [bit_and, bit_zero] at hd ⊢
  grind

theorem bits_within (v : Revision) {i : Nat} (hi : i < 8) (h : bit v.bits i = true) :
    bit v.field.mask i = true :=
  within_iff.mp v.fits i hi h

theorem byte_eq_self_iff (v : Revision) (b : UInt8) :
    v.byte b = b ↔ b &&& v.field.mask = v.bits := by
  constructor
  · intro h
    apply bit_ext
    intro i hi
    have hb := congrArg (bit · i) h
    have := v.bits_within hi
    simp only [byte, Field.bit_replace _ _ _ hi] at hb
    rw [bit_and]
    grind
  · intro h
    apply bit_ext
    intro i hi
    have hb := congrArg (bit · i) h
    simp only [bit_and] at hb
    rw [byte, Field.bit_replace _ _ _ hi]
    grind

theorem byte_byte (v : Revision) (b : UInt8) : v.byte (v.byte b) = v.byte b := by
  apply bit_ext
  intro i hi
  have := v.bits_within hi
  simp only [byte, Field.bit_replace _ _ _ hi]
  grind

theorem byte_and_of_disjoint (v : Revision) {mask : UInt8} (h : mask &&& v.field.mask = 0)
    (b : UInt8) :
    v.byte b &&& mask = b &&& mask := by
  apply bit_ext
  intro i hi
  have hd := congrArg (bit · i) h
  have := v.bits_within hi
  simp only [bit_and, bit_zero] at hd
  simp only [byte, bit_and, Field.bit_replace _ _ _ hi]
  grind

theorem apply_of_holds {v : Revision} {f : RegisterFile} (h : v.Holds f) : v.apply f = f := by
  have hb : v.byte (f.get v.field.register) = f.get v.field.register := (v.byte_eq_self_iff _).mpr h
  apply RegisterFile.ext
  intro r
  by_cases hr : v.field.register = r
  · subst hr
    simp [apply, hb]
  · rw [apply, RegisterFile.get_set_of_ne _ _ hr]

theorem holds_apply (v : Revision) (f : RegisterFile) : v.Holds (v.apply f) := by
  have h := v.byte_byte (f.get v.field.register)
  rw [Holds, apply, RegisterFile.get_set_self]
  exact (v.byte_eq_self_iff _).mp h

theorem holds_apply_of_apart {v w : Revision} (h : Apart v w) (f : RegisterFile) :
    v.Holds (w.apply f) ↔ v.Holds f := by
  by_cases hr : w.field.register = v.field.register
  · simp only [Holds, apply, hr, RegisterFile.get_set_self]
    rw [w.byte_and_of_disjoint (h hr.symm)]
  · simp only [Holds, apply, RegisterFile.get_set_of_ne _ _ hr]

theorem get_apply (v : Revision) (f : RegisterFile) (r : UInt8) :
    (v.apply f).get r = if v.field.register = r then v.byte (f.get r) else f.get r := by
  rw [apply, RegisterFile.get_set]
  split
  · rename_i here
    rw [here]
  · rfl

@[simp]
theorem applyAll_cons (v : Revision) (vs : List Revision) (f : RegisterFile) :
    applyAll (v :: vs) f = applyAll vs (v.apply f) := rfl

theorem applyAll_append (vs ws : List Revision) (f : RegisterFile) :
    applyAll (vs ++ ws) f = applyAll ws (applyAll vs f) :=
  List.foldl_append

theorem applyAll_preserves {ok : RegisterFile → Prop} {vs : List Revision}
    (h : ∀ v ∈ vs, ∀ f, ok f → ok (v.apply f)) {f : RegisterFile} (hf : ok f) :
    ok (applyAll vs f) := by
  induction vs generalizing f with
  | nil => exact hf
  | cons v vs ih =>
    exact ih (fun w hw => h w (List.mem_cons_of_mem v hw)) (h v List.mem_cons_self f hf)

/-- A register sees the revisions that name it, in order. -/
theorem get_applyAll (vs : List Revision) (f : RegisterFile) (r : UInt8) :
    (applyAll vs f).get r =
      vs.foldl (fun b v => if v.field.register = r then v.byte b else b) (f.get r) := by
  induction vs generalizing f with
  | nil => rfl
  | cons v vs ih =>
    have := ih (v.apply f)
    rw [get_apply] at this
    exact this

theorem get_applyAll_of_ne {vs : List Revision} {r : UInt8} (h : ∀ v ∈ vs, v.field.register ≠ r)
    (f : RegisterFile) : (applyAll vs f).get r = f.get r := by
  induction vs generalizing f with
  | nil => rfl
  | cons v vs ih =>
    have hv := h v List.mem_cons_self
    refine (ih (fun w hw => h w (List.mem_cons_of_mem v hw)) (v.apply f)).trans ?_
    rw [get_apply, if_neg hv]

theorem holds_applyAll_of_apart {v : Revision} {vs : List Revision} (h : ∀ w ∈ vs, Apart v w)
    (f : RegisterFile) : v.Holds (applyAll vs f) ↔ v.Holds f := by
  induction vs generalizing f with
  | nil => rfl
  | cons w vs ih =>
    refine (ih (fun x hx => h x (List.mem_cons_of_mem w hx)) (w.apply f)).trans ?_
    exact holds_apply_of_apart (h w List.mem_cons_self) f

/-- After revisions that share no bits every one of them holds. -/
theorem holds_applyAll {vs : List Revision} (h : vs.Pairwise Apart) (f : RegisterFile) :
    ∀ v ∈ vs, v.Holds (applyAll vs f) := by
  induction vs generalizing f with
  | nil => intro v hv; cases hv
  | cons w vs ih =>
    obtain ⟨hw, hvs⟩ := List.pairwise_cons.mp h
    intro v hv
    rcases List.mem_cons.mp hv with rfl | hv
    · exact (holds_applyAll_of_apart hw (v.apply f)).mpr (v.holds_apply f)
    · exact ih hvs (w.apply f) v hv

/-- Whether a revision holds is a matter of its own register. -/
theorem Holds.congr {v : Revision} {f g : RegisterFile} (h : v.Holds f)
    (hr : g.get v.field.register = f.get v.field.register) : v.Holds g := by
  rw [Holds, hr]
  exact h

theorem applyAll_of_holds {vs : List Revision} {f : RegisterFile} (h : ∀ v ∈ vs, v.Holds f) :
    applyAll vs f = f := by
  induction vs with
  | nil => rfl
  | cons v vs ih =>
    rw [applyAll_cons, apply_of_holds (h v List.mem_cons_self)]
    exact ih fun w hw => h w (List.mem_cons_of_mem v hw)

/-! ## Groups of revisions, each within a field of its own -/

section
variable {vss : List (List Revision)} {fields : List Field}

theorem exists_within (h : List.Forall₂ (fun vs a => ∀ v ∈ vs, v.Within a) vss fields)
    {v : Revision} (hv : v ∈ vss.flatten) : ∃ a ∈ fields, v.Within a := by
  induction h with
  | nil => cases hv
  | @cons vs a vss fields hvs _ ih =>
    rw [List.flatten_cons, List.mem_append] at hv
    rcases hv with hv | hv
    · exact ⟨a, List.mem_cons_self, hvs v hv⟩
    · obtain ⟨b, hb, hwithin⟩ := ih hv
      exact ⟨b, List.mem_cons_of_mem a hb, hwithin⟩

theorem pairwise_apart (h : List.Forall₂ (fun vs a => ∀ v ∈ vs, v.Within a) vss fields)
    (fields_apart : fields.Pairwise fun a b => a.register = b.register → a.mask &&& b.mask = 0)
    (inside : ∀ vs ∈ vss, vs.Pairwise Apart) : vss.flatten.Pairwise Apart := by
  induction h with
  | nil => exact .nil
  | @cons vs a vss fields hvs hvss ih =>
    obtain ⟨ha, hfields⟩ := List.pairwise_cons.mp fields_apart
    rw [List.flatten_cons, List.pairwise_append]
    refine ⟨inside vs List.mem_cons_self,
      ih hfields fun ws hws => inside ws (List.mem_cons_of_mem vs hws), ?_⟩
    intro v hv w hw
    obtain ⟨b, hb, hwb⟩ := exists_within hvss hw
    exact (hvs v hv).apart hwb (ha b hb)

/-- A register sees the groups whose field lies in it, in order. -/
theorem get_applyAll_flatten (h : List.Forall₂ (fun vs a => ∀ v ∈ vs, v.Within a) vss fields)
    (f : RegisterFile) (r : UInt8) :
    (applyAll vss.flatten f).get r =
      (fields.zip vss).foldl
        (fun b group => if group.1.register = r then group.2.foldl (fun b v => v.byte b) b else b)
        (f.get r) := by
  induction h generalizing f with
  | nil => rfl
  | @cons vs a vss fields hvs _ ih =>
    rw [List.flatten_cons, applyAll_append, ih, List.zip_cons_cons, List.foldl_cons]
    congr 1
    by_cases ha : a.register = r
    · rw [if_pos ha, get_applyAll]
      have hfold (ws : List Revision) (hws : ∀ w ∈ ws, w.field.register = r) (b : UInt8) :
          ws.foldl (fun b v => if v.field.register = r then v.byte b else b) b =
            ws.foldl (fun b v => v.byte b) b := by
        induction ws generalizing b with
        | nil => rfl
        | cons w ws ih =>
          rw [List.foldl_cons, List.foldl_cons, if_pos (hws w List.mem_cons_self)]
          exact ih (fun x hx => hws x (List.mem_cons_of_mem w hx)) _
      exact hfold vs (fun v hv => (hvs v hv).1.trans ha) _
    · rw [if_neg ha]
      exact get_applyAll_of_ne (fun v hv => (hvs v hv).1.symm ▸ ha) f

end

end Revision

end Chip

end Bringup
