import Bringup.Bench.RegisterFile

/-! Blocks of consecutive registers. Addresses wrap around, so a register lies in a block by its
distance from the start, and a block no longer than the file meets no register twice. -/
namespace Bringup.Bench.RegisterFile

variable {f g : RegisterFile} {start : UInt8} {bytes : List UInt8}

/-- The registers from `start` on hold the bytes. -/
def Shows (f : RegisterFile) (start : UInt8) (bytes : List UInt8) : Prop :=
  ∀ (i : Nat) (h : i < bytes.length), f.get (start + UInt8.ofNat i) = bytes[i]

instance (f : RegisterFile) (start : UInt8) (bytes : List UInt8) :
    Decidable (f.Shows start bytes) :=
  inferInstanceAs (Decidable (∀ (i : Nat) (h : i < bytes.length),
    f.get (start + UInt8.ofNat i) = bytes[i]))

theorem distance_start (start : UInt8) {i : Nat} (h : i < 256) :
    (start + UInt8.ofNat i - start).toNat = i := by
  have := start.toNat_lt
  rw [UInt8.toNat_sub, UInt8.toNat_add, UInt8.toNat_ofNat']
  omega

theorem add_ofNat_inj {start : UInt8} {i j : Nat} (hi : i < 256) (hj : j < 256)
    (h : start + UInt8.ofNat i = start + UInt8.ofNat j) : i = j := by
  have hd := congrArg (fun r => (r - start).toNat) h
  simpa only [distance_start start hi, distance_start start hj] using hd

theorem distance_next {start r : UInt8} (h : r ≠ start) :
    (r - start).toNat = (r - (start + 1)).toNat + 1 := by
  have hne : r.toNat ≠ start.toNat := fun e => h (UInt8.toNat_inj.mp e)
  have := r.toNat_lt
  have := start.toNat_lt
  rw [UInt8.toNat_sub, UInt8.toNat_sub, UInt8.toNat_add]
  simp only [UInt8.toNat_one]
  omega

theorem add_ofNat_succ (start : UInt8) (i : Nat) :
    start + UInt8.ofNat (i + 1) = start + 1 + UInt8.ofNat i := by
  rw [UInt8.ofNat_add, UInt8.add_comm (UInt8.ofNat i), ← UInt8.add_assoc]
  rfl

theorem forall_block_succ {P : UInt8 → Prop} {n : Nat} :
    (∀ i < n + 1, P (start + UInt8.ofNat i)) ↔
      P start ∧ ∀ i < n, P (start + 1 + UInt8.ofNat i) := by
  constructor
  · intro h
    refine ⟨by simpa using h 0 (Nat.zero_lt_succ n), fun i hi => ?_⟩
    rw [← add_ofNat_succ]
    exact h (i + 1) (Nat.succ_lt_succ hi)
  · rintro ⟨hfirst, hrest⟩ i hi
    cases i with
    | zero => simpa using hfirst
    | succ i =>
      rw [add_ofNat_succ]
      exact hrest i (Nat.lt_of_succ_lt_succ hi)

theorem shows_nil (f : RegisterFile) (start : UInt8) : f.Shows start [] := by
  intro i h
  cases h

theorem shows_cons {byte : UInt8} :
    f.Shows start (byte :: bytes) ↔ f.get start = byte ∧ f.Shows (start + 1) bytes := by
  constructor
  · intro h
    refine ⟨by simpa using h 0 (Nat.zero_lt_succ _), fun i hi => ?_⟩
    have := h (i + 1) (Nat.succ_lt_succ hi)
    rwa [add_ofNat_succ] at this
  · rintro ⟨hfirst, hrest⟩ i hi
    cases i with
    | zero => simpa using hfirst
    | succ i =>
      rw [add_ofNat_succ]
      exact hrest i (Nat.lt_of_succ_lt_succ hi)

theorem Shows.congr (h : f.Shows start bytes)
    (hfg : ∀ i < bytes.length, g.get (start + UInt8.ofNat i) = f.get (start + UInt8.ofNat i)) :
    g.Shows start bytes :=
  fun i hi => (hfg i hi).trans (h i hi)

/-- What a register holds after a block was stored: its own byte of the block, or what it held
before when the block ends short of it. -/
theorem get_setAll (f : RegisterFile) (start : UInt8) {bytes : List UInt8}
    (fits : bytes.length ≤ 256) (r : UInt8) :
    (f.setAll start bytes).get r = bytes[(r - start).toNat]?.getD (f.get r) := by
  induction bytes generalizing f start with
  | nil => rfl
  | cons byte rest ih =>
    rw [List.length_cons] at fits
    rw [setAll, ih _ _ (by omega)]
    by_cases hr : r = start
    · subst hr
      have hend : (r - (r + 1)).toNat = 255 := by
        have := r.toNat_lt
        rw [UInt8.toNat_sub, UInt8.toNat_add]
        simp only [UInt8.toNat_one]
        omega
      have hself : (r - r).toNat = 0 := by simp
      rw [hend, hself, List.getElem?_eq_none (by omega)]
      simp
    · rw [distance_next hr, List.getElem?_cons_succ, get_set_of_ne _ _ (Ne.symm hr)]

theorem get_setAll_of_le (fits : bytes.length ≤ 256) {r : UInt8}
    (h : bytes.length ≤ (r - start).toNat) : (f.setAll start bytes).get r = f.get r := by
  rw [get_setAll f start fits, List.getElem?_eq_none h]
  rfl

theorem shows_setAll (f : RegisterFile) (start : UInt8) (fits : bytes.length ≤ 256) :
    (f.setAll start bytes).Shows start bytes := by
  intro i hi
  rw [get_setAll f start fits, distance_start start (by omega), List.getElem?_eq_getElem hi]
  rfl

theorem setAll_of_shows (fits : bytes.length ≤ 256) (h : f.Shows start bytes) :
    f.setAll start bytes = f := by
  apply RegisterFile.ext
  intro r
  by_cases hr : (r - start).toNat < bytes.length
  · have hback : start + UInt8.ofNat (r - start).toNat = r := by
      rw [UInt8.ofNat_toNat, UInt8.add_comm, UInt8.sub_add_cancel]
    have := h _ hr
    rw [hback] at this
    rw [get_setAll f start fits, List.getElem?_eq_getElem hr, this]
    rfl
  · exact get_setAll_of_le fits (by omega)

/-- A block stored up to some byte is complete just when the rest of it was there before. -/
theorem shows_setAll_take_iff (f : RegisterFile) (start : UInt8) (fits : bytes.length ≤ 256)
    (k : Nat) :
    (f.setAll start (bytes.take k)).Shows start bytes ↔
      ∀ (i : Nat) (h : i < bytes.length), k ≤ i → f.get (start + UInt8.ofNat i) = bytes[i] := by
  have hlen : (bytes.take k).length ≤ 256 := by
    rw [List.length_take]
    omega
  have hget (i : Nat) (hi : i < bytes.length) :
      (f.setAll start (bytes.take k)).get (start + UInt8.ofNat i) =
        if i < k then bytes[i] else f.get (start + UInt8.ofNat i) := by
    rw [get_setAll f start hlen, distance_start start (by omega), List.getElem?_take]
    split
    · rw [List.getElem?_eq_getElem hi]
      rfl
    · rfl
  constructor
  · intro h i hi hk
    have := h i hi
    rwa [hget i hi, if_neg (by omega)] at this
  · intro h i hi
    rw [hget i hi]
    split
    · rfl
    · exact h i hi (by omega)

end Bringup.Bench.RegisterFile
