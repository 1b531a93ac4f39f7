import Bringup.Proofs.ChargerProbe
import Bringup.Proofs.Triple

/-! Properties that the groups of the charger have because their parts have them. Such a property
holds of single transfers and of whatever is put together from accesses that it holds of. It may ask
more of the writes to a word of the gauge. -/
namespace Bringup

open Chip

/-- No transfer on the bus. -/
def Request.OffBus : Request → Prop
  | .busRead .. => False
  | .busWrite .. => False
  | _ => True

namespace Chip

/-- The property holds of every read, of the writes to some of the registers, of what needs no
transfer, and of one such access after another. -/
structure Closed (d : Device) (free : UInt8 → Prop) (P : {α : Type} → Access α → Prop) : Prop where
  returns {α : Type} (x : α) : P (pure x)
  throws {α : Type} {e : ChipError} (h : e.isBus = false) : P (throw e : Access α)
  andThen {α β : Type} {p : Access α} {f : α → Access β} (first : P p) (rest : ∀ x, P (f x)) :
    P (p >>= f)
  checked {α β : Type} {c : Checked α} {f : α → Access β} (rest : ∀ x, c = .ok x → P (f x)) :
    P ((liftM (liftM c : Program α) : Access α) >>= f)
  offBus {α : Type} {p : Program α} (h : p.Only Request.OffBus) : P (liftM p : Access α)
  readByte (r : UInt8) : P (d.readByte r)
  writeByte {r : UInt8} (h : free r) (byte : UInt8) : P (d.writeByte r byte)

namespace Closed

variable {d : Device} {free : UInt8 → Prop} {P : {α : Type} → Access α → Prop} {α β : Type}
  (closed : Closed d free P)
include closed

theorem result {p : Access α} (h : P p) (g : α → β) : P (g <$> p) := by
  rw [map_eq_pure_bind]
  exact closed.andThen h fun x => closed.returns (g x)

theorem update {f : Field} (h : free f.register) (bits : UInt8) : P (d.update f bits) := by
  unfold Device.update
  split
  · exact closed.throws rfl
  · refine closed.andThen (closed.readByte f.register) fun current => ?_
    dsimp only
    split
    · exact closed.returns false
    · exact closed.andThen (closed.writeByte h _) fun _ => closed.returns true

theorem patch (p : Patch) {r : UInt8} (h : free r) : P (p.apply d r) := by
  unfold Patch.apply
  split
  · exact closed.returns Outcome.skipped
  · exact closed.result (closed.update h p.bits) Outcome.ofWritten

theorem reportStatus : P d.reportStatus := by
  have report (r : StatusRegister) (byte : UInt8) : P (liftM (r.report byte) : Access Unit) :=
    closed.offBus (.forM fun _ _ => .request trivial)
  refine closed.andThen (closed.readByte _) fun input => ?_
  refine closed.andThen (closed.readByte _) fun charge => ?_
  exact closed.andThen (report _ input) fun _ => report _ charge

end Closed

end Chip

namespace Charger

variable {free : UInt8 → Prop} {P : {α : Type} → Access α → Prop}
  (closed : Closed device free P)
include closed

/-! ## Groups apart from the words -/

section
variable (others : ∀ r ∉ wordRegisters, free r)
include others

theorem closed_flag {f : Chip.Field} (h : f.register ∉ wordRegisters) (setting : Option Int32) :
    P (applyFlag f setting) := by
  unfold applyFlag
  cases setting with
  | none => exact closed.returns _
  | some v => exact closed.result (closed.update (others _ h) _) Outcome.ofWritten

theorem closed_vbus (s : Settings) : P (applyVbus s) := by
  unfold applyVbus
  cases s.vbus? with
  | none => exact closed.throws rfl
  | some v =>
    have hold : (holdPatch .empty v.voltage v.voltageEnable).Only Request.OffBus := by
      unfold holdPatch
      split
      · split
        · trivial
        · exact Program.Only.bind (.request trivial) fun _ => trivial
      · trivial
    exact closed.andThen (closed.offBus hold) fun p => closed.patch _ (others _ (by decide))

theorem closed_adapterLimit (s : Settings) : P (applyAdapterLimit s) := by
  unfold applyAdapterLimit
  cases s.adapterLimit with
  | none => exact closed.returns _
  | some ua => exact closed.result (closed.update (others _ (by decide)) _) Outcome.ofWritten

theorem closed_chargeCurrent (s : Settings) : P (applyChargeCurrent s) := by
  unfold applyChargeCurrent
  cases s.chargeCurrent with
  | none => exact closed.returns _
  | some ua =>
    refine closed.andThen (closed.update (others _ (by decide)) _) fun switched => ?_
    refine closed.andThen (closed.readByte _) fun status => ?_
    refine closed.andThen (closed.update (others _ (by decide)) _) fun changed => ?_
    exact closed.returns _

theorem closed_warning (s : Settings) : P (applyWarning s) := by
  unfold applyWarning
  split
  · split
    · exact closed.throws rfl
    · exact closed.result (closed.update (others _ (by decide)) _) Outcome.ofWritten
  · exact closed.throws rfl

theorem closed_groups (s : Settings) : ∀ g ∈ groups s, P g.action := by
  have flag {f : Chip.Field} (h : f.register ∉ wordRegisters) (setting : Option Int32) :=
    closed_flag closed others h setting
  unfold groups
  simp only [List.forall_mem_cons, List.not_mem_nil, false_imp_iff, implies_true, and_true]
  exact ⟨closed.patch _ (others _ (by decide)), closed.patch _ (others _ (by decide)),
    flag (by decide) _, flag (by decide) _, flag (by decide) _, flag (by decide) _,
    closed_vbus closed others s, closed_adapterLimit closed others s,
    closed_chargeCurrent closed others s, closed_warning closed others s⟩

omit others in
theorem closed_differs (start : UInt8) (bytes : List UInt8) : P (differs start bytes) := by
  induction bytes generalizing start with
  | nil => exact closed.returns false
  | cons byte rest ih =>
    refine closed.andThen (closed.readByte start) fun found => ?_
    split
    · exact closed.returns true
    · exact ih (start + 1)

omit others in
theorem closed_writeAll {start : UInt8} {bytes : List UInt8}
    (h : ∀ i < bytes.length, free (start + UInt8.ofNat i)) : P (writeAll start bytes) := by
  induction bytes generalizing start with
  | nil => exact closed.returns ()
  | cons byte rest ih =>
    obtain ⟨first, next⟩ := Bench.RegisterFile.forall_block_succ (P := free) |>.mp h
    exact closed.andThen (closed.writeByte first byte) fun _ => ih next

theorem closed_curve (s : Settings) : P (applyCurve s) := by
  unfold applyCurve
  cases s.curve with
  | none => exact closed.returns _
  | some curve =>
    have outside : ∀ i < curve.bytes.length, free (Register.curve + UInt8.ofNat i) :=
      fun i hi => others _ (curve_not_word i (Nat.lt_of_lt_of_le hi curve.fits))
    refine closed.andThen (closed_differs closed _ _) fun different => ?_
    split
    · refine closed.andThen (closed_writeAll closed outside) fun _ => ?_
      exact closed.andThen (closed.offBus (.request trivial)) fun _ => closed.returns _
    · exact closed.returns _

end

/-! ## Words -/

/-- It is left to the property what it makes of a word that is written, or of a capacity that is
taken away. -/
theorem closed_word {s : Settings} (w : GaugeWord)
    (stored : ∀ value ∈ w.setting s, ∀ code, w.encode value.toInt = .ok code →
      P (writePair w.high w.low (w.bytes code)))
    (cleared : w = .capacity → s.capacity = some 0 → P (writePair w.high w.low ⟨0, 0⟩))
    (changed : Bool) : P (w.apply s changed) := by
  cases configured : w.setting s with
  | none =>
    rw [w.apply_none configured]
    exact closed.returns _
  | some value =>
    rw [w.apply_some configured]
    refine closed.andThen (closed.readByte _) fun high => ?_
    split
    · refine closed.checked fun code hcode => ?_
      exact closed.andThen (stored value configured code hcode) fun _ => closed.returns _
    · cases w with
      | resistance => exact closed.returns _
      | capacity =>
        rw [GaugeWord.orElse]
        split
        · rename_i zero
          subst zero
          refine closed.andThen (closed.readByte _) fun low => ?_
          split
          · exact closed.andThen (cleared rfl configured) fun _ => closed.returns _
          · exact closed.returns _
        · exact closed.returns _

end Charger

end Bringup
