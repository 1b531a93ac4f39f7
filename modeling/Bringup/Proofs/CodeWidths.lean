import Bringup.Charger.Calibration
import Bringup.Charger.Field

/-! Every code of the charger fits the field it is meant for. -/
namespace Bringup.Charger

namespace PowerKey

theorem startBits_within (ms : Int) : startBits ms &&& ~~~Field.keyStart.mask = 0 := by
  unfold startBits
  split
  · decide
  · split
    · decide
    · split <;> decide

theorem longBits_within (ms : Int) : longBits ms &&& ~~~Field.keyLong.mask = 0 := by
  have h : ((above 1000 2500 ms).tdiv 500).toNat ≤ 3 := by
    unfold above
    rw [Int.tdiv_eq_ediv_of_nonneg (by omega)]
    omega
  have codes : ∀ n ≤ 3, UInt8.ofNat n <<< 4 &&& ~~~Field.keyLong.mask = 0 := by decide
  exact codes _ h

theorem offBits_within (ms : Int) : offBits ms &&& ~~~Field.keyOff.mask = 0 := by
  have h : ((above 4000 10000 ms).tdiv 2000).toNat ≤ 3 := by
    unfold above
    rw [Int.tdiv_eq_ediv_of_nonneg (by omega)]
    omega
  have codes : ∀ n ≤ 3, UInt8.ofNat n &&& ~~~Field.keyOff.mask = 0 := by decide
  exact codes _ h

theorem delayBits_within (ms : Int) : delayBits ms &&& ~~~Field.keyDelay.mask = 0 := by
  have h : (min (max (furtherSteps ms) 0) 3).toNat ≤ 3 := by omega
  have codes : ∀ n ≤ 3, UInt8.ofNat n &&& ~~~Field.keyDelay.mask = 0 := by decide
  exact codes _ h

end PowerKey

theorem holdBits_within {mv : Int} {bits : UInt8} (h : holdBits mv = some bits) :
    bits &&& ~~~Field.holdVoltage.mask = 0 := by
  unfold holdBits at h
  split at h
  · rename_i range
    have hn : ((mv - 4000).tdiv 100).toNat ≤ 7 := by
      rw [Int.tdiv_eq_ediv_of_nonneg (by omega)]
      omega
    have codes : ∀ n ≤ 7, UInt8.ofNat n <<< 3 &&& ~~~Field.holdVoltage.mask = 0 := by decide
    cases h
    exact codes _ hn
  · cases h

theorem VbusLimit.code_within (l : VbusLimit) : l.code &&& ~~~Field.vbusLimit.mask = 0 := by
  cases l <;> decide

theorem Current.encode_within (ua : Int) : Current.encode ua &&& ~~~Current.mask = 0 := by
  unfold Current.encode
  split
  · decide
  · split
    · decide
    · rw [UInt8.and_assoc]
      simp

end Bringup.Charger
