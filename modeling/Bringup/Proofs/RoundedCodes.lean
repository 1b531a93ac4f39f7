import Bringup.Proofs.CalibrationWords
import Bringup.Proofs.CodeWidths

/-! Codes of currents, press times and hold voltages. What lies beyond the last code is taken to it,
and of two values the greater never gets the lesser code. -/
namespace Bringup.Charger

/-- Of two values the greater one has no lesser code. -/
def Rises (code : Int → UInt8) : Prop := ∀ a b : Int32, a ≤ b → code a.toInt ≤ code b.toInt

theorem rises_of_value {code : Int → UInt8} {value : Int → Int}
    (coded : ∀ n, ((code n).toNat : Int) = value n) (h : ∀ a b, a ≤ b → value a ≤ value b) :
    Rises code := by
  intro a b le
  have values := h a.toInt b.toInt (Int32.le_iff_toInt_le.mp le)
  rw [← coded, ← coded] at values
  rw [UInt8.le_iff_toNat_le]
  omega

/-- The quotient of what is not negative loses its rest, however the division rounds. -/
theorem toNat_ofNat_tdiv {n d : Int} (nonneg : 0 ≤ n) (few : n / d < 256) (positive : 0 < d) :
    ((UInt8.ofNat (n.tdiv d).toNat).toNat : Int) = n / d := by
  have quotient := Int.ediv_nonneg nonneg (Int.le_of_lt positive)
  rw [Int.tdiv_eq_ediv_of_nonneg nonneg, UInt8.toNat_ofNat_of_lt' (by change _ < 256; omega)]
  omega

/-! ## Currents -/

namespace Current

theorem toNat_and_mask (byte : UInt8) : (byte &&& mask).toNat = byte.toNat % 16 := by
  rw [UInt8.toNat_and]
  exact Nat.and_two_pow_sub_one_eq_mod _ 4

/-- Counted from 200001 microamperes, the first third of a step is rounded down and the rest up. -/
theorem toNat_encode (ua : Int) :
    ((encode ua).toNat : Int) = (min (max ua 300000) 2550000 - 200001) / 150000 := by
  unfold encode least greatest step
  by_cases low : ua < 300000
  · rw [if_pos low, Int.max_eq_right (by omega)]
    rfl
  · rw [if_neg low]
    by_cases high : 2550000 < ua
    · rw [if_pos high, Int.max_eq_left (by omega), Int.min_eq_right (by omega)]
      rfl
    · have code : ((UInt8.ofNat ((ua - 200001).tdiv 150000).toNat).toNat : Int) =
          (ua - 200001) / 150000 := toNat_ofNat_tdiv (by omega) (by omega) (by decide)
      rw [if_neg high, toNat_and_mask]
      omega

theorem decode_eq (byte : UInt8) : decode byte = (byte.toNat % 16 * 150 + 300) * 1000 := by
  rw [decode, toNat_and_mask]

theorem encode_rises : Rises encode := by
  apply rises_of_value toNat_encode
  intro a b le
  omega

theorem decode_encode_near {ua : Int} (least : 300000 ≤ ua) (greatest : ua ≤ 2550000) :
    ua - 50000 ≤ decode (encode ua) ∧ (decode (encode ua) : Int) ≤ ua + 99999 := by
  have code := toNat_encode ua
  rw [decode_eq]
  omega

theorem decode_le (byte : UInt8) : decode byte ≤ 2550000 := by
  rw [decode_eq]
  omega

theorem encode_high {ua : Int} (h : 2550000 < ua) : encode ua = 15 := by
  unfold encode least greatest
  rw [if_neg (by omega), if_pos h]

theorem encode_decode (byte : UInt8) : encode (decode byte) = byte &&& mask := by
  have code := toNat_encode (decode byte)
  rw [decode_eq] at code ⊢
  rw [← UInt8.toNat_inj, toNat_and_mask]
  omega

end Current

/-! ## Press times -/

namespace PowerKey

/-- What is computed on the way stays within the signed words of 32 bits, and the code has room for
all of the steps that are counted, of which one weighs so much. -/
def Exact (computed count : Int → Int) (code : Int → UInt8) (weight : Nat) : Prop :=
  ∀ ms : Int32,
    (-0x80000000 ≤ computed ms.toInt ∧ computed ms.toInt < 0x80000000) ∧
    ((code ms.toInt).toNat : Int) = weight * count (computed ms.toInt)

theorem above_range {least greatest : Int} (ordered : least ≤ greatest) (ms : Int) :
    0 ≤ above least greatest ms ∧ above least greatest ms ≤ greatest - least := by
  unfold above
  omega

theorem toNat_longBits (ms : Int) :
    ((longBits ms).toNat : Int) = 16 * (above 1000 2500 ms).tdiv 500 := by
  obtain ⟨nonneg, most⟩ := above_range (by decide : (1000 : Int) ≤ 2500) ms
  have steps := toNat_ofNat_tdiv (d := 500) nonneg (by omega) (by decide)
  have quotient := Int.tdiv_eq_ediv_of_nonneg (b := 500) nonneg
  rw [longBits, UInt8.toNat_shiftLeft, Nat.shiftLeft_eq]
  change ((_ * 2 ^ 4 % 2 ^ 8 : Nat) : Int) = _
  omega

theorem toNat_offBits (ms : Int) :
    ((offBits ms).toNat : Int) = (above 4000 10000 ms).tdiv 2000 := by
  obtain ⟨nonneg, most⟩ := above_range (by decide : (4000 : Int) ≤ 10000) ms
  rw [Int.tdiv_eq_ediv_of_nonneg nonneg]
  exact toNat_ofNat_tdiv nonneg (by omega) (by decide)

theorem toNat_delayBits (ms : Int) :
    ((delayBits ms).toNat : Int) = min (max (furtherSteps ms) 0) 3 := by
  rw [delayBits, UInt8.toNat_ofNat_of_lt' (by change _ < 256; omega)]
  omega

theorem longBits_exact : Exact (above 1000 2500) (·.tdiv 500) longBits 16 := by
  intro ms
  have range := above_range (by decide : (1000 : Int) ≤ 2500) ms.toInt
  exact ⟨by omega, toNat_longBits _⟩

theorem offBits_exact : Exact (above 4000 10000) (·.tdiv 2000) offBits 1 := by
  intro ms
  have range := above_range (by decide : (4000 : Int) ≤ 10000) ms.toInt
  exact ⟨by omega, by simpa using toNat_offBits _⟩

/-- How a negative time is rounded makes no difference, for it has the least code. -/
theorem tdiv_near (ms : Int) :
    0 ≤ ms ∧ ms.tdiv 8 = ms / 8 ∨ ms < 0 ∧ ms / 8 ≤ ms.tdiv 8 ∧ ms.tdiv 8 ≤ 0 := by
  by_cases nonneg : 0 ≤ ms
  · exact .inl ⟨nonneg, Int.tdiv_eq_ediv_of_nonneg nonneg⟩
  · have negated := Int.tdiv_eq_ediv_of_nonneg (a := -ms) (b := 8) (by omega)
    rw [Int.neg_tdiv] at negated
    omega

theorem delayBits_exact : Exact furtherSteps (fun steps => min (max steps 0) 3) delayBits 1 := by
  intro ms
  have lower := Int32.le_toInt ms
  have upper := Int32.toInt_lt ms
  have rounded := tdiv_near ms.toInt
  refine ⟨?_, by simpa using toNat_delayBits _⟩
  unfold furtherSteps
  omega

/-- The code of a time counts its whole steps from the first on, as far as the last one, and each
weighs the same. -/
def Counts (step first last weight : Nat) (code : Int → UInt8) : Prop :=
  ∀ ms : Int, ((code ms).toNat : Int) = weight * (min (max (ms / step) first) last - first)

theorem Counts.rises {step first last weight : Nat} {code : Int → UInt8}
    (h : Counts step first last weight code) (positive : 0 < step) : Rises code := by
  apply rises_of_value h
  intro a b le
  have quotients : a / step ≤ b / step := Int.ediv_le_ediv (by omega) le
  exact Int.mul_le_mul_of_nonneg_left (by omega) (Int.natCast_nonneg weight)

theorem startBits_counts : Counts 1000 0 3 64 startBits := by
  intro ms
  unfold startBits
  split
  · simp; omega
  · split
    · simp; omega
    · split <;> simp <;> omega

theorem longBits_counts : Counts 500 2 5 16 longBits := by
  intro ms
  obtain ⟨nonneg, -⟩ := above_range (by decide : (1000 : Int) ≤ 2500) ms
  rw [toNat_longBits, Int.tdiv_eq_ediv_of_nonneg nonneg]
  unfold above
  omega

theorem offBits_counts : Counts 2000 2 5 1 offBits := by
  intro ms
  obtain ⟨nonneg, -⟩ := above_range (by decide : (4000 : Int) ≤ 10000) ms
  rw [toNat_offBits, Int.tdiv_eq_ediv_of_nonneg nonneg]
  unfold above
  omega

theorem delayBits_counts : Counts 8 1 4 1 delayBits := by
  intro ms
  have rounded := tdiv_near ms
  rw [toNat_delayBits, furtherSteps]
  omega

end PowerKey

/-! ## Hold voltages -/

theorem holdBits_isSome_iff (mv : Int) : (holdBits mv).isSome ↔ 4000 ≤ mv ∧ mv ≤ 4700 := by
  unfold holdBits
  split <;> simp_all

theorem toNat_holdBits {mv : Int} {bits : UInt8} (h : holdBits mv = some bits) :
    (bits.toNat : Int) = 8 * ((mv - 4000) / 100) ∧ 4000 ≤ mv ∧ mv ≤ 4700 := by
  have range := (holdBits_isSome_iff mv).mp (by rw [h]; rfl)
  rw [holdBits, if_pos range] at h
  obtain rfl := Option.some.inj h
  have steps : ((UInt8.ofNat ((mv - 4000).tdiv 100).toNat).toNat : Int) = (mv - 4000) / 100 :=
    toNat_ofNat_tdiv (by omega) (by omega) (by decide)
  rw [UInt8.toNat_shiftLeft, Nat.shiftLeft_eq]
  change ((_ * 2 ^ 3 % 2 ^ 8 : Nat) : Int) = _ ∧ _
  omega

theorem holdBits_near {mv : Int} {bits : UInt8} (h : holdBits mv = some bits) :
    4000 + 100 * ((bits >>> 3).toNat : Int) ≤ mv ∧
    mv < 4000 + 100 * ((bits >>> 3).toNat : Int) + 100 := by
  obtain ⟨code, least, greatest⟩ := toNat_holdBits h
  rw [UInt8.toNat_shiftRight, Nat.shiftRight_eq_div_pow]
  change 4000 + 100 * ((bits.toNat / 2 ^ 3 : Nat) : Int) ≤ mv ∧
    mv < 4000 + 100 * ((bits.toNat / 2 ^ 3 : Nat) : Int) + 100
  omega

theorem holdBits_mono {a b : Int} {s t : UInt8} (le : a ≤ b) (ha : holdBits a = some s)
    (hb : holdBits b = some t) : s ≤ t := by
  obtain ⟨first, -, -⟩ := toNat_holdBits ha
  obtain ⟨second, -, -⟩ := toNat_holdBits hb
  rw [UInt8.le_iff_toNat_le]
  omega

/-! ## All codes -/

/-- Codes of a current, which take what is out of range to the nearest end. -/
structure CurrentCode (encode : Int → UInt8) (decode : UInt8 → Nat) : Prop where
  rises : Rises encode
  near : ∀ ua : Int32, 300000 ≤ ua.toInt → ua.toInt ≤ 2550000 →
    ua.toInt - 50000 ≤ decode (encode ua.toInt) ∧
    (decode (encode ua.toInt) : Int) ≤ ua.toInt + 99999 ∧ decode (encode ua.toInt) ≤ 2550000
  low : ∀ ua : Int32, ua.toInt < 300000 → encode ua.toInt = 0
  high : ∀ ua : Int32, 2550000 < ua.toInt → encode ua.toInt = 15
  inverse : ∀ byte : UInt8, encode (decode byte) = byte &&& 0x0F

/-- Codes of a press time that belong in a field. -/
structure TimeCode (code : Int → UInt8) (field : Chip.Field) : Prop where
  rises : Rises code
  within : ∀ ms : Int32, code ms.toInt &&& ~~~field.mask = 0

/-- Codes of a hold voltage, which take no voltage out of range. -/
structure HoldCode (code : Int → Option UInt8) : Prop where
  defined : ∀ mv : Int32, (code mv.toInt).isSome ↔ 4000 ≤ mv.toInt ∧ mv.toInt ≤ 4700
  rises : ∀ (a b : Int32) (s t : UInt8), a ≤ b → code a.toInt = some s → code b.toInt = some t →
    s ≤ t
  within : ∀ (mv : Int32) (bits : UInt8), code mv.toInt = some bits →
    bits &&& ~~~Field.holdVoltage.mask = 0
  near : ∀ (mv : Int32) (bits : UInt8), code mv.toInt = some bits →
    4000 + 100 * ((bits >>> 3).toNat : Int) ≤ mv.toInt ∧
    mv.toInt < 4000 + 100 * ((bits >>> 3).toNat : Int) + 100

theorem Current.coded : CurrentCode Current.encode Current.decode where
  rises := encode_rises
  near := by
    intro ua least greatest
    obtain ⟨below, above⟩ := decode_encode_near least greatest
    exact ⟨below, above, decode_le _⟩
  low := fun _ low => if_pos low
  high := fun _ => encode_high
  inverse := encode_decode

theorem holdBits_coded : HoldCode holdBits where
  defined := fun _ => holdBits_isSome_iff _
  rises := fun _ _ _ _ le => holdBits_mono (Int32.le_iff_toInt_le.mp le)
  within := fun _ _ => holdBits_within
  near := fun _ _ => holdBits_near

open PowerKey in
/-- Currents have codes near them, and the least or the greatest out of range; a code is got back
from its current. Press times have codes that rise within their fields, and nothing overflows on the
way to them. Hold voltages are rounded down by less than a step, and refused out of range. -/
theorem codes_round_and_saturate :
    CurrentCode Current.encode Current.decode ∧
    (TimeCode startBits Field.keyStart ∧ TimeCode longBits Field.keyLong ∧
      TimeCode offBits Field.keyOff ∧ TimeCode delayBits Field.keyDelay) ∧
    (Exact (above 1000 2500) (·.tdiv 500) longBits 16 ∧
      Exact (above 4000 10000) (·.tdiv 2000) offBits 1 ∧
      Exact furtherSteps (fun steps => min (max steps 0) 3) delayBits 1) ∧
    HoldCode holdBits :=
  ⟨Current.coded,
    ⟨⟨startBits_counts.rises (by decide), fun _ => startBits_within _⟩,
      ⟨longBits_counts.rises (by decide), fun _ => longBits_within _⟩,
      ⟨offBits_counts.rises (by decide), fun _ => offBits_within _⟩,
      ⟨delayBits_counts.rises (by decide), fun _ => delayBits_within _⟩⟩,
    ⟨longBits_exact, offBits_exact, delayBits_exact⟩, holdBits_coded⟩

/-- Two currents on either side of a border between codes, currents and times far out of range, and
a voltage just below a step. -/
theorem border_codes :
    let below : Int32 := 350000
    let above : Int32 := 350001
    let voltage : Int32 := 4699
    Current.decode (Current.encode below.toInt) = 300000 ∧
    Current.decode (Current.encode above.toInt) = 450000 ∧
    Current.encode below.toInt ≤ Current.encode above.toInt ∧
    below.toInt - 50000 ≤ Current.decode (Current.encode below.toInt) ∧
    (Current.decode (Current.encode above.toInt) : Int) ≤ above.toInt + 99999 ∧
    Current.encode Int32.minValue.toInt = 0 ∧ Current.encode Int32.maxValue.toInt = 15 ∧
    PowerKey.delayBits Int32.minValue.toInt ≤ PowerKey.delayBits Int32.maxValue.toInt ∧
    holdBits voltage.toInt = some 0x30 ∧ 4600 ≤ voltage.toInt ∧ voltage.toInt < 4700 := by
  intro below above voltage
  obtain ⟨current, ⟨-, -, -, delay⟩, -, hold⟩ := codes_round_and_saturate
  have lower := current.near below (by decide) (by decide)
  have upper := current.near above (by decide) (by decide)
  have held : holdBits voltage.toInt = some 0x30 := by decide
  exact ⟨by decide, by decide, current.rises below above (by decide), lower.1, upper.2.1,
    current.low _ (by decide), current.high _ (by decide), delay.rises _ _ (by decide), held,
    hold.near voltage 0x30 held⟩

end Bringup.Charger
