import Bringup.Charger.Calibration
import Bringup.Proofs.Revision

/-! The words of the gauge as they are read back: a code below the width of its register pair
survives being split in two bytes, and the settings of real batteries have such codes. -/
namespace Bringup.Charger

open Chip

namespace Resistance

/-- The code in a register pair, flags aside. -/
def word (high low : UInt8) : UInt16 := ((high &&& highMask).toUInt16 <<< 8) ||| low.toUInt16

end Resistance

namespace Capacity

/-- The code in a register pair, the valid bit aside. -/
def word (high low : UInt8) : UInt16 := ((high &&& ~~~valid).toUInt16 <<< 8) ||| low.toUInt16

end Capacity

/-- Two bytes side by side. -/
theorem toNat_join (high low : UInt8) :
    ((high.toUInt16 <<< 8) ||| low.toUInt16).toNat = high.toNat * 256 + low.toNat := by
  have hhigh := high.toNat_lt
  have hlow : low.toNat < 2 ^ 8 := low.toNat_lt
  rw [UInt16.toNat_or, UInt16.toNat_shiftLeft, UInt8.toNat_toUInt16, UInt8.toNat_toUInt16]
  change high.toNat <<< 8 % 2 ^ 16 ||| low.toNat = _
  rw [Nat.mod_eq_of_lt (by rw [Nat.shiftLeft_eq]; omega), ← Nat.shiftLeft_add_eq_or_of_lt hlow,
    Nat.shiftLeft_eq]

/-- The low byte can be read off a word. -/
theorem low_of_join (high low : UInt8) :
    ((high.toUInt16 <<< 8) ||| low.toUInt16).toUInt8 = low := by
  have hlow := low.toNat_lt
  apply UInt8.toNat_inj.mp
  rw [UInt16.toNat_toUInt8, toNat_join]
  omega

theorem high_half (code : UInt16) : (code >>> 8).toUInt8.toNat = code.toNat / 256 := by
  have hcode := code.toNat_lt
  rw [UInt16.toNat_toUInt8, UInt16.toNat_shiftRight]
  change code.toNat >>> 8 % 2 ^ 8 = _
  rw [Nat.shiftRight_eq_div_pow]
  omega

theorem signedWord_ok {overflow : Fault} {n : Int} (h : -0x80000000 ≤ n) (h' : n < 0x80000000) :
    Checked.signedWord overflow n = .ok n := by
  have hleast : Int32.minValue.toInt = -0x80000000 := rfl
  have hgreatest : Int32.maxValue.toInt = 0x7FFFFFFF := rfl
  refine if_pos ⟨?_, ?_⟩
  · rw [hleast]
    exact h
  · rw [hgreatest]
    omega

theorem ofInt_toNat {n : Int} (h₀ : 0 ≤ n) (h : n < 0x10000) :
    (UInt16.ofInt n).toNat = n.toNat := by
  rw [UInt16.ofInt, UInt16.toNat_ofNat']
  omega

namespace Resistance

/-- Of a code that is longer, the low bits are left. -/
theorem toNat_word_bytes (code : UInt16) :
    (word (bytes code).high (bytes code).low).toNat = code.toNat % 0x2000 := by
  have flags : (bytes code).high &&& highMask = (code >>> 8).toUInt8 &&& highMask := by
    change ((code >>> 8).toUInt8 &&& highMask ||| writeEnable) &&& highMask = _
    rw [or_and_distrib, UInt8.and_assoc, UInt8.and_self,
      show writeEnable &&& highMask = 0 from by decide, UInt8.or_zero]
  have five : ((code >>> 8).toUInt8 &&& highMask).toNat = code.toNat / 256 % 32 := by
    rw [UInt8.toNat_and, high_half]
    exact Nat.and_two_pow_sub_one_eq_mod _ 5
  have low : (bytes code).low.toNat = code.toNat % 256 := UInt16.toNat_toUInt8 code
  rw [word, flags, toNat_join, five, low]
  omega

theorem word_bytes {code : UInt16} (h : code.toNat < 0x2000) :
    word (bytes code).high (bytes code).low = code := by
  apply UInt16.toNat_inj.mp
  rw [toNat_word_bytes, Nat.mod_eq_of_lt h]

/-- Written bytes take the calibration of the gauge back. -/
theorem bytes_not_calibrated (code : UInt16) : (bytes code).high &&& calibrated = 0 := by
  change ((code >>> 8).toUInt8 &&& highMask ||| writeEnable) &&& calibrated = 0
  rw [or_and_distrib, UInt8.and_assoc,
    show highMask &&& calibrated = 0 from by decide,
    show writeEnable &&& calibrated = 0 from by decide, UInt8.and_zero, UInt8.or_zero]

theorem encode_range {mohm : Int} (h : 1 ≤ mohm) (h' : mohm ≤ 8799) :
    ∃ code, encode mohm = .ok code ∧ code.toNat < 0x2000 := by
  have hscaled : Checked.signedWord .mulOverflow (mohm * 10000) = .ok (mohm * 10000) :=
    signedWord_ok (by omega) (by omega)
  have hrounded : Checked.signedWord .addOverflow (mohm * 10000 + 5371) =
      .ok (mohm * 10000 + 5371) := signedWord_ok (by omega) (by omega)
  refine ⟨UInt16.ofInt ((mohm * 10000 + 5371).tdiv 10742), ?_, ?_⟩
  · rw [encode, hscaled]
    change (Checked.signedWord .addOverflow (mohm * 10000 + 5371) >>= _) = _
    rw [hrounded]
    rfl
  · rw [Int.tdiv_eq_ediv_of_nonneg (by omega), ofInt_toNat (by omega) (by omega)]
    omega

end Resistance

namespace Capacity

/-- Of a code that is longer, the low bits are left. The valid bit is no part of the word. -/
theorem toNat_word {high : UInt8} {code : UInt16}
    (h : high &&& ~~~valid = (bytes code).high &&& ~~~valid) :
    (word high (bytes code).low).toNat = code.toNat % 0x8000 := by
  have flag : (bytes code).high &&& ~~~valid = (code >>> 8).toUInt8 &&& 0x7F := by
    change ((code >>> 8).toUInt8 ||| valid) &&& ~~~valid = _
    rw [or_and_distrib, show valid &&& ~~~valid = 0 from by decide, UInt8.or_zero]
    rfl
  have seven : ((code >>> 8).toUInt8 &&& 0x7F).toNat = code.toNat / 256 % 128 := by
    rw [UInt8.toNat_and, high_half]
    exact Nat.and_two_pow_sub_one_eq_mod _ 7
  have low : (bytes code).low.toNat = code.toNat % 256 := UInt16.toNat_toUInt8 code
  rw [word, h, flag, toNat_join, seven, low]
  omega

theorem word_bytes {code : UInt16} (h : code.toNat < 0x8000) :
    word (bytes code).high (bytes code).low = code := by
  apply UInt16.toNat_inj.mp
  rw [toNat_word rfl, Nat.mod_eq_of_lt h]

/-- Next to the right high byte only the right low byte makes the word. -/
theorem word_high_eq_iff {code : UInt16} (h : code.toNat < 0x8000) (low : UInt8) :
    word (bytes code).high low = code ↔ low = (bytes code).low := by
  constructor
  · intro hword
    have hlow := congrArg UInt16.toUInt8 hword
    rw [word, low_of_join] at hlow
    exact hlow
  · rintro rfl
    exact word_bytes h

theorem bytes_valid (code : UInt16) : (bytes code).high &&& valid = valid := or_and_self _ _

theorem encode_range {mah : Int} (h : 1 ≤ mah) (h' : mah ≤ 47000) :
    ∃ code, encode mah = .ok code ∧ code.toNat < 0x8000 := by
  have hscaled : Checked.signedWord .mulOverflow (mah * 1000) = .ok (mah * 1000) :=
    signedWord_ok (by omega) (by omega)
  refine ⟨UInt16.ofInt ((mah * 1000).tdiv 1456), ?_, ?_⟩
  · rw [encode, hscaled]
    rfl
  · rw [Int.tdiv_eq_ediv_of_nonneg (by omega), ofInt_toNat (by omega) (by omega)]
    omega

end Capacity

end Bringup.Charger
