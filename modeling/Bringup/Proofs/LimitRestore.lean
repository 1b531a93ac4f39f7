import Bringup.Proofs.LimitCells
import Bringup.Proofs.RoundedCodes

/-! Saving the limits of the charger and restoring them later. The two currents come back whatever
happened in between. A VBUS limit that was lifted is saved as zero, and a request for zero sets the
lowest limit there is. -/
namespace Bringup.Charger

open Bench (MemoryChip RegisterFile)
open Chip
open Program (Yields)

/-- The three limits in microamperes, as they are read. -/
@[ext]
structure Limits where
  charge : Nat
  adapter : Nat
  vbus : Nat
  deriving DecidableEq, Repr

namespace Limits

def save : Access Limits := do
  let charge ← chargeCurrent
  let adapter ← inputLimit .adapter
  let vbus ← inputLimit .usb
  return ⟨charge, adapter, vbus⟩

def restore (saved : Limits) : Access Unit := do
  setChargeCurrent saved.charge
  setInputLimit .adapter saved.adapter
  setInputLimit .usb saved.vbus

/-- Save the limits, make the calls, restore the limits, and read them again. -/
def saveAndRestore (c : Charger) (calls : List Call) : Access (Limits × Limits) := do
  let before ← save
  let _ ← FrontEnds.performCharger c (calls.map Subtype.val)
  restore before
  let after ← save
  return (before, after)

def ofPanel (p : Panel) : Limits := ⟨p.cells .charge, p.cells .adapter, p.cells .vbus⟩

end Limits

/-! ## Writing back what was read -/

theorem Current.decode_encode_decode (byte : UInt8) :
    Current.decode (Current.encode (Current.decode byte)) = Current.decode byte := by
  rw [Current.encode_decode, Current.decode, UInt8.and_assoc, UInt8.and_self, Current.decode]

theorem Current.decode_ne_zero (byte : UInt8) : Current.decode byte ≠ 0 := by
  unfold Current.decode
  omega

/-- A request for what was read is read as that again, unless it is zero. -/
theorem Limit.read_code_read (l : Limit) (byte : UInt8) :
    l.read (l.code (l.read byte)) = if l.read byte = 0 then 500000 else l.read byte := by
  cases l with
  | charge =>
    exact (Current.decode_encode_decode byte).trans (if_neg (Current.decode_ne_zero byte)).symm
  | adapter =>
    exact (Current.decode_encode_decode byte).trans (if_neg (Current.decode_ne_zero byte)).symm
  | vbus =>
    have again (limit : VbusLimit) :
        (VbusLimit.ofCode (VbusLimit.ofMicroamps limit.microamps).code).microamps =
          if limit.microamps = 0 then 500000 else limit.microamps := by
      cases limit <;> rfl
    exact again (VbusLimit.ofCode byte)

/-- Each cell takes what its code makes of the saved limit. -/
def Panel.restored (p : Panel) (saved : Limits) : Panel :=
  p.put .charge (Limit.charge.read (Limit.charge.code saved.charge))
    |>.put .adapter (Limit.adapter.read (Limit.adapter.code saved.adapter))
    |>.put .vbus (Limit.vbus.read (Limit.vbus.code saved.vbus))

namespace Panel.Shows

variable {p : Panel} {f g : RegisterFile}

theorem save (h : p.Shows f g) : p.Answers f g Limits.save (.ok (Limits.ofPanel p)) p := by
  apply (h.get .charge).andThen
  intro g₁ h₁
  apply (h₁.get .adapter).andThen
  intro g₂ h₂
  apply (h₂.get .vbus).andThen
  intro g₃ h₃
  exact h₃.returns (Limits.ofPanel p)

theorem calls (h : p.Shows f g) (c : Charger) (calls : List Call) :
    p.Answers f g (liftM (FrontEnds.performCharger c (calls.map Subtype.val)))
      (.ok (p.steps c f calls).1) (p.steps c f calls).2 := by
  obtain ⟨g', yields, h'⟩ := h.steps c calls
  exact ⟨g', yields.lift, h'⟩

theorem restore (h : p.Shows f g) (saved : Limits) :
    p.Answers f g (Limits.restore saved) (.ok ()) (p.restored saved) := by
  apply (h.set .charge saved.charge).andThen
  intro g₁ h₁
  apply (h₁.set .adapter saved.adapter).andThen
  intro g₂ h₂
  exact h₂.set .vbus saved.vbus

theorem saveAndRestore (h : p.Shows f g) (c : Charger) (calls : List Call) :
    let before := Limits.ofPanel p
    let p' := (p.steps c f calls).2.restored before
    p.Answers f g (Limits.saveAndRestore c calls) (.ok (before, Limits.ofPanel p')) p' := by
  intro before p'
  apply h.save.andThen
  intro g₁ h₁
  apply (h₁.calls c calls).andThen
  intro g₂ h₂
  apply (h₂.restore before).andThen
  intro g₃ h₃
  apply h₃.save.andThen
  intro g₄ h₄
  exact h₄.returns (before, Limits.ofPanel p')

end Panel.Shows

/-- Whatever is asked of the charger between saving and restoring, the charge current and the
adapter limit come back, and so does a VBUS limit other than zero. Zero, which stands for no limit,
comes back as half an ampere. -/
theorem limits_restored_iff (c : Charger) (f : RegisterFile) (hosts : Nat → Bool)
    (calls : List Call) :
    let before : Limits := Limits.ofPanel (.ofRegisters f hosts)
    ∃ after m', (Limits.saveAndRestore c calls).run.Yields ⟨f, .never, hosts⟩
        (.ok (before, after)) m' ∧
      after.charge = before.charge ∧ after.adapter = before.adapter ∧
      after.vbus = (if before.vbus = 0 then 500000 else before.vbus) ∧
      (after = before ↔ before.vbus ≠ 0) := by
  intro before
  obtain ⟨g, yields, -⟩ := (Panel.shows_ofRegisters f hosts).saveAndRestore c calls
  have charge : Limit.charge.read (Limit.charge.code before.charge) = before.charge :=
    (Limit.charge.read_code_read _).trans (if_neg (Current.decode_ne_zero _))
  have adapter : Limit.adapter.read (Limit.adapter.code before.adapter) = before.adapter :=
    (Limit.adapter.read_code_read _).trans (if_neg (Current.decode_ne_zero _))
  have vbus : Limit.vbus.read (Limit.vbus.code before.vbus) =
      if before.vbus = 0 then 500000 else before.vbus :=
    Limit.vbus.read_code_read _
  refine ⟨_, _, yields, charge, adapter, vbus, ?_⟩
  constructor
  · intro same zero
    have kept := vbus.symm.trans (congrArg Limits.vbus same)
    rw [if_pos zero, zero] at kept
    cases kept
  · intro limited
    exact Limits.ext charge adapter (vbus.trans (if_neg limited))

/-- A VBUS limit that was lifted, and lowered after it was saved. -/
theorem unlimited_vbus_not_restored :
    let m : MemoryChip := ⟨.set .zero Register.vbus 0x03, .never, fun _ => true⟩
    let calls : List Call := [⟨.setInputLimit .usb 900000, by decide⟩]
    (m.run (Limits.saveAndRestore (.ofTable .empty) calls)).outcome =
      .ok (.ok (⟨300000, 300000, 0⟩, ⟨300000, 300000, 500000⟩)) := by
  decide +kernel

end Bringup.Charger
