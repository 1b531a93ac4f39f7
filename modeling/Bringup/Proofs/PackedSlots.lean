import Bringup.Pmic.Probe
import Bringup.Proofs.Revision

/-! Values packed into one byte. A list of slots packs just when every value fits its place, and
where the places are bits of their own, every value can be read back from the byte. -/
namespace Bringup.Pmic

open Chip (bit_or or_and_distrib within_iff)

/-- The value at its place in the byte. -/
def Slot.bits (s : Slot) : UInt8 := UInt8.ofNat s.value.toInt.toNat <<< s.shift

/-- Either all values are packed or nothing is. -/
theorem pack_eq (slots : List Slot) : pack slots =
    if ∀ s ∈ slots, s.Fits then some (slots.foldl (fun byte s => byte ||| s.bits) 0) else none := by
  unfold pack
  generalize (0 : UInt8) = byte
  induction slots generalizing byte with
  | nil => rfl
  | cons s slots ih =>
    rw [List.foldlM_cons, Slot.byte?]
    by_cases fits : s.Fits
    · rw [if_pos fits]
      refine (ih _).trans ?_
      simp [fits, Slot.bits]
    · rw [if_neg fits]
      simp [fits]

theorem pack_eq_some_iff {slots : List Slot} {byte : UInt8} : pack slots = some byte ↔
    (∀ s ∈ slots, s.Fits) ∧ slots.foldl (fun byte s => byte ||| s.bits) 0 = byte := by
  rw [pack_eq]
  by_cases fits : ∀ s ∈ slots, s.Fits
  · rw [if_pos fits, Option.some_inj]
    exact (and_iff_right fits).symm
  · rw [if_neg fits]
    simp [fits]

/-! ## Slot by slot -/

/-- A number as a byte, unless it is negative or too large. -/
def narrow? (v : Int32) : Option UInt8 :=
  if 0 ≤ v.toInt ∧ v.toInt < UInt8.size then some (UInt8.ofNat v.toInt.toNat) else none

/-- Each value is made a byte, held against the greatest that its place can hold, and put there. The
first that is no byte or too great ends it. -/
def packEach (byte : UInt8) : List Slot → Option UInt8
  | [] => some byte
  | s :: slots => do
      let value ← (narrow? s.value).filter (· ≤ s.top)
      packEach (byte ||| value <<< s.shift) slots

theorem Slot.Fits.toNat_le {s : Slot} (h : s.Fits) : s.value.toInt.toNat ≤ s.top.toNat := by
  have greatest := h.2
  omega

/-- A value that fits its place is a byte. -/
theorem Slot.Fits.toNat_ofNat {s : Slot} (h : s.Fits) :
    (UInt8.ofNat s.value.toInt.toNat).toNat = s.value.toInt.toNat :=
  UInt8.toNat_ofNat_of_lt' (Nat.lt_of_le_of_lt h.toNat_le s.top.toNat_lt_size)

theorem narrow?_of_fits {s : Slot} (h : s.Fits) :
    (narrow? s.value).filter (· ≤ s.top) = some (UInt8.ofNat s.value.toInt.toNat) := by
  have top := s.top.toNat_lt_size
  have range : 0 ≤ s.value.toInt ∧ s.value.toInt < UInt8.size := ⟨h.1, by have := h.2; omega⟩
  have below : UInt8.ofNat s.value.toInt.toNat ≤ s.top := by
    rw [UInt8.le_iff_toNat_le, h.toNat_ofNat]
    exact h.toNat_le
  rw [narrow?, if_pos range, Option.filter_some, if_pos (decide_eq_true below)]

theorem narrow?_of_not_fits {s : Slot} (h : ¬ s.Fits) :
    (narrow? s.value).filter (· ≤ s.top) = none := by
  by_cases range : 0 ≤ s.value.toInt ∧ s.value.toInt < UInt8.size
  · have value : (UInt8.ofNat s.value.toInt.toNat).toNat = s.value.toInt.toNat :=
      UInt8.toNat_ofNat_of_lt' (by omega)
    have above : ¬ UInt8.ofNat s.value.toInt.toNat ≤ s.top := by
      intro below
      rw [UInt8.le_iff_toNat_le, value] at below
      exact h ⟨range.1, by omega⟩
    rw [narrow?, if_pos range, Option.filter_some, decide_eq_false above]
    rfl
  · rw [narrow?, if_neg range, Option.filter_none]

theorem pack_eq_packEach (slots : List Slot) : pack slots = packEach 0 slots := by
  unfold pack
  generalize (0 : UInt8) = byte
  induction slots generalizing byte with
  | nil => rfl
  | cons s slots ih =>
    rw [List.foldlM_cons, packEach, Slot.byte?]
    by_cases fits : s.Fits
    · rw [if_pos fits, narrow?_of_fits fits]
      exact ih _
    · rw [if_neg fits, narrow?_of_not_fits fits]
      rfl

/-! ## Places -/

/-- Where in a byte a value is meant to be. -/
structure Place where
  top : UInt8
  shift : UInt8
  deriving DecidableEq, Repr

namespace Place

/-- The bits of the byte that are the place's own. -/
def mask (p : Place) : UInt8 := p.top <<< p.shift

/-- What stands at the place. -/
def read (p : Place) (byte : UInt8) : UInt8 := (byte >>> p.shift) &&& p.top

/-- All bits that belong to some place. -/
def covered (places : List Place) : UInt8 := places.foldr (fun p mask => p.mask ||| mask) 0

/-- The place is a run of bits inside the byte. -/
structure Lies (p : Place) : Prop where
  shift : p.shift < 8
  top : (p.top.toNat + 1).isPowerOfTwo
  inside : p.top.toNat <<< p.shift.toNat < UInt8.size

/-- Places inside one byte, none of which has a bit of another. -/
structure SideBySide (places : List Place) : Prop where
  lies : ∀ p ∈ places, p.Lies
  apart : places.Pairwise fun p q => p.mask &&& q.mask = 0

variable {p : Place}

theorem Lies.shift_back (h : p.Lies) : p.mask >>> p.shift = p.top := by
  have shift : p.shift.toNat % 8 = p.shift.toNat := Nat.mod_eq_of_lt h.shift
  apply UInt8.toNat_inj.mp
  rw [mask, UInt8.toNat_shiftRight, UInt8.toNat_shiftLeft, shift, Nat.mod_eq_of_lt h.inside,
    Nat.shiftLeft_shiftRight]

/-- Only the place's own bits matter to what stands there. -/
theorem Lies.read_mask (h : p.Lies) (byte : UInt8) : p.read (byte &&& p.mask) = p.read byte := by
  rw [read, read, UInt8.shiftRight_and, h.shift_back, UInt8.and_assoc, UInt8.and_self]

/-- Nothing is lost of a value up to the greatest. -/
theorem Lies.and_top (h : p.Lies) {value : UInt8} (fits : value.toNat ≤ p.top.toNat) :
    value &&& p.top = value := by
  obtain ⟨width, run⟩ := h.top
  apply UInt8.toNat_inj.mp
  rw [UInt8.toNat_and, Nat.eq_sub_of_add_eq run, Nat.and_two_pow_sub_one_of_lt_two_pow]
  omega

theorem mask_covered {places : List Place} (h : p ∈ places) : p.mask &&& ~~~covered places = 0 := by
  rw [within_iff]
  intro i hi hbit
  induction places with
  | nil => cases h
  | cons q places ih =>
    rw [covered, List.foldr_cons, ← covered, bit_or]
    rcases List.mem_cons.mp h with rfl | later
    · simp [hbit]
    · simp [ih later]

end Place

/-! ## Reading back -/

namespace Slot

def place (s : Slot) : Place := ⟨s.top, s.shift⟩

variable {s : Slot}

theorem and_top (lies : s.place.Lies) (h : s.Fits) :
    UInt8.ofNat s.value.toInt.toNat &&& s.top = UInt8.ofNat s.value.toInt.toNat := by
  apply lies.and_top
  rw [h.toNat_ofNat]
  exact h.toNat_le

/-- The bits of a value that fits stay at its place. -/
theorem bits_and_mask (lies : s.place.Lies) (h : s.Fits) : s.bits &&& s.place.mask = s.bits := by
  rw [bits, Place.mask, place, ← UInt8.shiftLeft_and, and_top lies h]

theorem read_bits (lies : s.place.Lies) (h : s.Fits) :
    s.place.read s.bits = UInt8.ofNat s.value.toInt.toNat := by
  have value := and_top lies h
  have shift : s.shift.toNat % 8 = s.shift.toNat := Nat.mod_eq_of_lt lies.shift
  have inside : s.value.toInt.toNat <<< s.shift.toNat < UInt8.size := by
    refine Nat.lt_of_le_of_lt ?_ lies.inside
    simp only [Nat.shiftLeft_eq, place]
    exact Nat.mul_le_mul_right _ h.toNat_le
  have back : s.bits >>> s.shift = UInt8.ofNat s.value.toInt.toNat := by
    apply UInt8.toNat_inj.mp
    rw [bits, UInt8.toNat_shiftRight, UInt8.toNat_shiftLeft, shift, h.toNat_ofNat,
      Nat.mod_eq_of_lt inside, Nat.shiftLeft_shiftRight]
  rw [Place.read, place, back, value]

end Slot

/-- What is gathered from slots with no bit in the mask is not seen through it. -/
theorem gathered_and_of_spared {slots : List Slot} {mask : UInt8}
    (h : ∀ s ∈ slots, s.bits &&& mask = 0) (byte : UInt8) :
    slots.foldl (fun byte s => byte ||| s.bits) byte &&& mask = byte &&& mask := by
  induction slots generalizing byte with
  | nil => rfl
  | cons s slots ih =>
    obtain ⟨hs, hslots⟩ := List.forall_mem_cons.mp h
    rw [List.foldl_cons, ih hslots, or_and_distrib, hs, UInt8.or_zero]

open Place (SideBySide)

theorem bits_and_of_apart {s : Slot} {mask : UInt8} (lies : s.place.Lies) (fits : s.Fits)
    (apart : s.place.mask &&& mask = 0) : s.bits &&& mask = 0 := by
  rw [← Slot.bits_and_mask lies fits, UInt8.and_assoc, apart, UInt8.and_zero]

/-- At its place a slot finds its own bits, whatever was gathered before and after it. -/
theorem gathered_and_mask {slots : List Slot} (laid : SideBySide (slots.map Slot.place))
    (fits : ∀ s ∈ slots, s.Fits) {s : Slot} (h : s ∈ slots) (byte : UInt8) :
    slots.foldl (fun byte s => byte ||| s.bits) byte &&& s.place.mask =
      (byte &&& s.place.mask) ||| s.bits := by
  obtain ⟨lies, apart⟩ := laid
  -- On the slots, with any byte to start from: it holds what the slots before have left there.
  induction slots generalizing byte with
  | nil => cases h
  | cons t slots ih =>
    obtain ⟨ht, hslots⟩ := List.pairwise_cons.mp apart
    obtain ⟨lies_t, lies_slots⟩ := List.forall_mem_cons.mp lies
    obtain ⟨fits_t, fits_slots⟩ := List.forall_mem_cons.mp fits
    rw [List.foldl_cons]
    rcases List.mem_cons.mp h with rfl | later
    · have others : ∀ u ∈ slots, u.bits &&& s.place.mask = 0 := by
        intro u hu
        apply bits_and_of_apart (lies_slots _ (List.mem_map_of_mem hu)) (fits_slots u hu)
        rw [UInt8.and_comm]
        exact ht _ (List.mem_map_of_mem hu)
      rw [gathered_and_of_spared others, or_and_distrib, Slot.bits_and_mask lies_t fits_t]
    · have earlier : t.bits &&& s.place.mask = 0 :=
        bits_and_of_apart lies_t fits_t (ht _ (List.mem_map_of_mem later))
      rw [ih fits_slots later _ lies_slots hslots, or_and_distrib, earlier, UInt8.or_zero]

/-- The values of the slots, and nothing else, are in the byte. -/
structure Holds (slots : List Slot) (byte : UInt8) : Prop where
  values : ∀ s ∈ slots, ((s.place.read byte).toNat : Int) = s.value.toInt
  inside : byte &&& ~~~Place.covered (slots.map Slot.place) = 0

theorem holds_of_pack {slots : List Slot} (laid : SideBySide (slots.map Slot.place)) {byte : UInt8}
    (h : pack slots = some byte) : Holds slots byte := by
  obtain ⟨fits, rfl⟩ := pack_eq_some_iff.mp h
  constructor
  · intro s hs
    have lies := laid.lies _ (List.mem_map_of_mem hs)
    have own := gathered_and_mask laid fits hs 0
    rw [UInt8.zero_and, UInt8.zero_or] at own
    rw [← lies.read_mask, own, Slot.read_bits lies (fits s hs), (fits s hs).toNat_ofNat,
      Int.toNat_of_nonneg (fits s hs).1]
  · rw [gathered_and_of_spared, UInt8.zero_and]
    intro s hs
    have listed := List.mem_map_of_mem (f := Slot.place) hs
    exact bits_and_of_apart (laid.lies _ listed) (fits s hs) (Place.mask_covered listed)

/-- A slot is its place and its value. -/
theorem Slot.ext_place {s t : Slot} (place : s.place = t.place)
    (value : s.value.toInt = t.value.toInt) : s = t := by
  obtain ⟨_, _, _⟩ := s
  obtain ⟨_, _, _⟩ := t
  simp_all [Slot.place, Int32.toInt_inj]

/-- What a byte holds at given places is one list of slots. -/
theorem Holds.unique {slots others : List Slot} {byte : UInt8} (h : Holds slots byte)
    (h' : Holds others byte) (places : others.map Slot.place = slots.map Slot.place) :
    others = slots := by
  have read {slots : List Slot} (h : Holds slots byte) : slots.map (fun s => s.value.toInt) =
      (slots.map Slot.place).map fun p => ((p.read byte).toNat : Int) := by
    rw [List.map_map]
    exact List.map_congr_left fun s hs => (h.values s hs).symm
  have values : others.map (fun s => s.value.toInt) = slots.map fun s => s.value.toInt := by
    rw [read h', read h, places]
  have pairs : others.map (fun s => (s.place, s.value.toInt)) =
      slots.map fun s => (s.place, s.value.toInt) := by
    rw [← List.zip_map', ← List.zip_map', places, values]
  refine List.map_injective_iff.mpr (fun s t same => ?_) pairs
  obtain ⟨place, value⟩ := Prod.mk.inj same
  exact Slot.ext_place place value

/-! ## The composite groups -/

theorem Place.lies_flag {shift : UInt8} (h : shift < 8) : Lies ⟨1, shift⟩ := by
  have inside : ∀ k < 8, 1 <<< k < UInt8.size := by decide
  exact ⟨h, ⟨1, rfl⟩, inside _ (UInt8.lt_iff_toNat_lt.mp h)⟩

theorem frequencySlots_sideBySide {settings : Settings} {slots : List Slot}
    (h : frequencySlots settings = some slots) : SideBySide (slots.map Slot.place) := by
  simp only [frequencySlots, Option.bind_eq_bind, Option.bind_eq_some_iff] at h
  obtain ⟨enable, -, spread, -, phase, -, frequency, -, h⟩ := h
  obtain rfl := Option.some.inj h
  have lowest : Place.Lies ⟨0xF, 0⟩ := ⟨by decide, ⟨4, rfl⟩, by decide⟩
  change SideBySide [⟨1, 7⟩, ⟨1, 6⟩, ⟨1, 4⟩, ⟨0xF, 0⟩]
  constructor
  · simp [Place.lies_flag, lowest]
  · decide

theorem overheatSlots_sideBySide {settings : Settings} {slots : List Slot}
    (h : overheatSlots settings = some slots) : SideBySide (slots.map Slot.place) := by
  simp only [overheatSlots, Option.bind_eq_bind, Option.bind_eq_some_iff] at h
  obtain ⟨wake, -, function, -, status, -, vbus, -, reset, -, off, -, h⟩ := h
  obtain rfl := Option.some.inj h
  change SideBySide [⟨1, 7⟩, ⟨1, 6⟩, ⟨1, 5⟩, ⟨1, 4⟩, ⟨1, 3⟩, ⟨1, 2⟩, ⟨1, 0⟩]
  constructor
  · simp [Place.lies_flag]
  · decide

/-- Slots are packed one after another, up to the first value that is no byte or does not fit its
place. Where the places have bits of their own, as those of both composite groups do, a list packs
just when every value is from zero to the greatest of its place; then each value can be read back,
no bit is set beside the places, and no other values at the same places pack to the same byte. -/
theorem packed_exactly :
    (∀ slots, pack slots = packEach 0 slots) ∧
    (∀ settings, ∀ slots ∈ frequencySlots settings, SideBySide (slots.map Slot.place)) ∧
    (∀ settings, ∀ slots ∈ overheatSlots settings, SideBySide (slots.map Slot.place)) ∧
    ∀ slots : List Slot, SideBySide (slots.map Slot.place) →
      ((∃ byte, pack slots = some byte) ↔
        ∀ s ∈ slots, 0 ≤ s.value.toInt ∧ s.value.toInt ≤ s.top.toNat) ∧
      ∀ byte, pack slots = some byte → Holds slots byte ∧
        ∀ others, others.map Slot.place = slots.map Slot.place → pack others = some byte →
          others = slots := by
  refine ⟨pack_eq_packEach, fun settings slots => frequencySlots_sideBySide,
    fun settings slots => overheatSlots_sideBySide, ?_⟩
  intro slots laid
  constructor
  · constructor
    · rintro ⟨byte, packed⟩
      exact (pack_eq_some_iff.mp packed).1
    · intro fits
      exact ⟨_, pack_eq_some_iff.mpr ⟨fits, rfl⟩⟩
  · intro byte packed
    have holds := holds_of_pack laid packed
    refine ⟨holds, ?_⟩
    intro others places same
    exact holds.unique (holds_of_pack (places ▸ laid) same) places

/-- Both composite groups, complete and in range. -/
def composites : Settings where
  spreadEnable := some 1
  spreadRange := some 0
  polyPhase := some 1
  switchFrequency := some 9
  offVoltage := none
  adcControl := none
  wakeOnInterrupt := some 1
  vbusAcinFunction := some 0
  vbusAcinStatus := some 1
  vbusEnable := some 0
  resetEnable := some 1
  overheatOff := some 0

/-- A frequency with the low byte of one that fits does not pass for it. -/
theorem composites_packed :
    let frequency (f : Int32) : List Slot := [⟨1, 1, 7⟩, ⟨0, 1, 6⟩, ⟨1, 1, 4⟩, ⟨f, 0xF, 0⟩]
    let overheat : List Slot :=
      [⟨1, 1, 7⟩, ⟨0, 1, 6⟩, ⟨1, 1, 5⟩, ⟨0, 1, 4⟩, ⟨1, 1, 3⟩, ⟨0, 1, 2⟩, ⟨1, 1, 0⟩]
    frequencySlots composites = some (frequency 9) ∧ overheatSlots composites = some overheat ∧
    pack (frequency 9) = some 0x99 ∧ Holds (frequency 9) 0x99 ∧
    pack overheat = some 0xA9 ∧ Holds overheat 0xA9 ∧
    (frequency 8).map Slot.place = (frequency 9).map Slot.place ∧
    pack (frequency 8) ≠ some 0x99 ∧
    (¬ ∃ byte, pack (frequency 265) = some byte) ∧
    ¬ ∃ byte, pack (frequency (-247)) = some byte := by
  intro frequency overheat
  obtain ⟨-, of_frequency, of_overheat, exactly⟩ := packed_exactly
  have frequencies (f : Int32) : SideBySide ((frequency f).map Slot.place) :=
    of_frequency composites (frequency 9) rfl
  obtain ⟨-, packed⟩ := exactly (frequency 9) (frequencies 9)
  obtain ⟨holds, alone⟩ := packed 0x99 (by decide)
  obtain ⟨-, packed'⟩ := exactly overheat (of_overheat composites overheat rfl)
  have differ : frequency 8 ≠ frequency 9 := by decide
  have above : ¬ ∀ s ∈ frequency 265, 0 ≤ s.value.toInt ∧ s.value.toInt ≤ s.top.toNat := by decide
  have below : ¬ ∀ s ∈ frequency (-247), 0 ≤ s.value.toInt ∧ s.value.toInt ≤ s.top.toNat := by
    decide
  exact ⟨rfl, rfl, by decide, holds, by decide, (packed' 0xA9 (by decide)).1, rfl,
    fun same => differ (alone (frequency 8) rfl same),
    mt (exactly _ (frequencies 265)).1.mp above, mt (exactly _ (frequencies (-247))).1.mp below⟩

end Bringup.Pmic
