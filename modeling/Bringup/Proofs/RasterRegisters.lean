import Bringup.Proofs.EarlySync

/-! The link's registers once a raster has been set. Every length of the raster stands in a pair of
registers of one byte each. Nothing comes to these registers a second time, and the blocks of unused
pairs, which follow each other without a gap, stay apart. -/
namespace Bringup.Link

open WindowMemory (board)

/-! ## Lengths -/

/-- No length of an axis is longer than its total. -/
theorem axisLengths_le (a : Video.Axis) : ∀ n ∈ axisLengths a, n ≤ a.total := by
  simp only [axisLengths, Video.Axis.total, Video.Axis.blank, Video.Axis.syncEnd,
    Video.Axis.syncStart, List.forall_mem_cons]
  exact ⟨by omega, by omega, by omega, by omega, fun _ h => absurd h List.not_mem_nil⟩

/-- A length, and the first of the two registers that hold it. -/
structure LengthPair where
  offset : Nat
  length : Nat
  deriving DecidableEq, Repr

/-- The lengths that are programmed as they are. -/
def lengthPairs (t : Video.Timing) : List LengthPair := [
  ⟨Register.hBlank, t.horizontal.blank⟩,
  ⟨Register.v1Blank, t.vertical.blank⟩,
  ⟨Register.v2Blank, t.vertical.total⟩,
  ⟨Register.vLine, t.vertical.total⟩,
  ⟨Register.hLine, t.horizontal.total⟩,
  ⟨Register.vSyncBefore1, t.vertical.syncStart⟩,
  ⟨Register.vSyncBefore2, t.vertical.syncEnd⟩]

theorem lengthPairs_le {t : Video.Timing} (wide : t.horizontal.total ≤ 65535)
    (tall : t.vertical.total ≤ 65535) : ∀ x ∈ lengthPairs t, x.length ≤ 65535 := by
  have across := axisLengths_le t.horizontal
  have down := axisLengths_le t.vertical
  simp only [axisLengths, List.forall_mem_cons] at across down
  simp only [lengthPairs, List.forall_mem_cons]
  exact ⟨by omega, by omega, by omega, by omega, by omega, by omega, by omega,
    fun _ h => absurd h List.not_mem_nil⟩

/-! ## Pairs of registers -/

/-- What a pair of registers comes to: the low byte, and the high byte above it. -/
def pairValue (words : WindowWords) (offset : Nat) : Nat :=
  (words .hdmi offset).toNat + 256 * (words .hdmi (offset + 4)).toNat

/-- The pair of registers holds two bytes, which come to the length. -/
structure HoldsLength (words : WindowWords) (x : LengthPair) : Prop where
  low : (words .hdmi x.offset).toNat ≤ 0xFF
  high : (words .hdmi (x.offset + 4)).toNat ≤ 0xFF
  value : pairValue words x.offset = x.length

theorem holdsLength_of_bytes {words : WindowWords} {x : LengthPair} (h : x.length ≤ 65535)
    (low : words .hdmi x.offset = UInt32.ofNat x.length &&& 0xFF)
    (high : words .hdmi (x.offset + 4) = (UInt32.ofNat x.length >>> 8) &&& 0xFF) :
    HoldsLength words x := by
  have fits : x.length < UInt32.size := Nat.lt_of_le_of_lt h (by decide)
  have lowByte : (words .hdmi x.offset).toNat = x.length % 256 := by rw [low, toNat_low fits]
  have highByte : (words .hdmi (x.offset + 4)).toNat = x.length / 256 := by
    rw [high, UInt32.toNat_and, toNat_high fits]
    exact (Nat.and_two_pow_sub_one_eq_mod _ 8).trans (Nat.mod_eq_of_lt (by omega))
  constructor
  · omega
  · omega
  · rw [pairValue, lowByte, highByte]
    omega

/-- The raster, as far as its lengths go, as it is read off the registers. -/
structure Describes (words : WindowWords) (t : Video.Timing) : Prop where
  lengths : ∀ x ∈ lengthPairs t, HoldsLength words x
  width : pairValue words Register.hLine =
    pairValue words Register.hBlank + t.horizontal.active.toNat
  height : pairValue words Register.vLine =
    pairValue words Register.v1Blank + t.vertical.active.toNat
  field : pairValue words Register.vLine = pairValue words Register.v2Blank

theorem describes_of_lengths {words : WindowWords} {t : Video.Timing}
    (h : ∀ x ∈ lengthPairs t, HoldsLength words x) : Describes words t := by
  have all := h
  simp only [lengthPairs, List.forall_mem_cons] at all
  obtain ⟨hBlank, v1Blank, v2Blank, vLine, hLine, -⟩ := all
  refine ⟨h, ?_, ?_, vLine.value.trans v2Blank.value.symm⟩
  · rw [hLine.value, hBlank.value]
    exact Nat.add_comm _ _
  · rw [vLine.value, v1Blank.value]
    exact Nat.add_comm _ _

/-! ## Stores of the raster -/

/-- The raster comes to no register twice. -/
theorem raster_once (t : Video.Timing) : ((Raster.writes t).map (·.offset)).Nodup := by
  have offsets : (Raster.writes t).map (·.offset) =
      (Raster.writes Video.Preset.hd720.timing).map (·.offset) := rfl
  rw [offsets]
  decide +kernel

/-- The stores to one word of the transmitter. -/
def storesTo (offset : Nat) (stores : List WordStore) : List WordStore :=
  stores.filter fun x => x.1 = .hdmi ∧ x.2.offset = offset

/-- Where no word is stored to twice, there is one store to each. -/
theorem storesTo_once {writes : List WordWrite} (once : (writes.map (·.offset)).Nodup)
    {x : WordWrite} (hx : x ∈ writes) : storesTo x.offset (onHdmi writes) = [(.hdmi, x)] := by
  induction writes with
  | nil => exact absurd hx List.not_mem_nil
  | cons y writes ih =>
    obtain ⟨fresh, once⟩ := List.nodup_cons.mp once
    rcases List.mem_cons.mp hx with rfl | hx
    · have others : storesTo x.offset (onHdmi writes) = [] := by
        refine List.filter_eq_nil_iff.mpr fun z hz same => ?_
        obtain ⟨w, hw, rfl⟩ := List.mem_map.mp hz
        exact fresh (List.mem_map.mpr ⟨w, hw, (of_decide_eq_true same).2⟩)
      change storesTo x.offset ((.hdmi, x) :: onHdmi writes) = _
      rw [storesTo, List.filter_cons_of_pos (by simp)]
      exact congrArg _ others
    · have other : ¬ y.offset = x.offset := fun same =>
        fresh (List.mem_map.mpr ⟨x, hx, same.symm⟩)
      change storesTo x.offset ((.hdmi, y) :: onHdmi writes) = _
      rw [storesTo, List.filter_cons_of_neg (by simp [other])]
      exact ih once hx

/-- Each length is written to its pair. -/
theorem lengths_written (t : Video.Timing) :
    ∀ x ∈ lengthPairs t, ∀ y ∈ bytePair x.offset (.ofNat x.length), y ∈ Raster.writes t := by
  -- The first seven of the sync writes are the polarities, the scan mode and both early pairs.
  have pairs : (lengthPairs t).flatMap (fun x => bytePair x.offset (.ofNat x.length)) =
      Raster.blankWrites t ++ (Raster.syncWrites t).drop 7 := rfl
  intro x hx y hy
  have among : y ∈ (lengthPairs t).flatMap fun x => bytePair x.offset (.ofNat x.length) :=
    List.mem_flatMap.mpr ⟨x, hx, hy⟩
  rw [pairs] at among
  simp only [Raster.writes, List.mem_append]
  rcases List.mem_append.mp among with blank | sync
  · exact .inl (.inl (.inl (.inr blank)))
  · exact .inl (.inl (.inr (List.mem_of_mem_drop sync)))

theorem lengths_held (words : WindowWords) {t : Video.Timing} (wide : t.horizontal.total ≤ 65535)
    (tall : t.vertical.total ≤ 65535) :
    ∀ x ∈ lengthPairs t, HoldsLength (place words (onHdmi (Raster.writes t))) x := by
  intro x hx
  have written := lengths_written t x hx
  exact holdsLength_of_bytes (lengthPairs_le wide tall x hx)
    (place_onHdmi_mem (raster_once t) (written _ (.head _)))
    (place_onHdmi_mem (raster_once t) (written _ (.tail _ (.head _))))

/-! ## Blocks of unused pairs -/

/-- Where the blocks begin. -/
def unusedBlocks : List Nat :=
  [Register.vSyncAfter, Register.vSyncAfterPixel, Register.activeSpace]

/-- Six pairs of eight bytes of address each. -/
def unusedSize : Nat := 48

def InUnused (base offset : Nat) : Prop := base ≤ offset ∧ offset < base + unusedSize

instance (base offset : Nat) : Decidable (InUnused base offset) :=
  inferInstanceAs (Decidable (_ ∧ _))

/-- All pairs of a block, switched off. -/
def unusedPairs (base : Nat) : List WordWrite :=
  (List.range 6).flatMap fun i => bytePair (base + 8 * i) 0xFFFF

theorem unusedPairs_inside (base : Nat) : ∀ x ∈ unusedPairs base, InUnused base x.offset := by
  intro x hx
  obtain ⟨i, hi, hx⟩ := List.mem_flatMap.mp hx
  have six := List.mem_range.mp hi
  have size : unusedSize = 48 := rfl
  simp only [bytePair, List.mem_cons, List.not_mem_nil, or_false] at hx
  rcases hx with rfl | rfl
  · simp only [InUnused, size]
    omega
  · simp only [InUnused, size]
    omega

/-- One block after the other. -/
theorem unusedBlocks_apart : unusedBlocks.Pairwise fun a b => a + unusedSize ≤ b := by decide

/-- Whatever the raster stores in a block is what it means for that block. -/
theorem raster_unused (t : Video.Timing) : ∀ base ∈ unusedBlocks,
    (Raster.writes t).filter (fun x => InUnused base x.offset) = unusedPairs base := by
  simp only [unusedBlocks, List.forall_mem_cons]
  exact ⟨rfl, rfl, rfl, fun _ h => absurd h List.not_mem_nil⟩

/-! ## After a raster has been set -/

/-- No length overflows a word. Once the clock has locked, setting a raster succeeds. If no line
and no column of it is longer than two bytes can say, then its lengths can be read off the
registers. Each of these is stored to once, and each block of unused pairs holds its own pairs and
nothing else. -/
theorem raster_described (t : Video.Timing) (link : Link)
    (allowed : link.phase ∈ [.phyReady, .timingPrepared]) (m : WindowMemory) :
    (∀ n ∈ axisLengths t.horizontal ++ axisLengths t.vertical, n < UInt32.size) ∧
    ∃ events m', ((prepare t).exec link).run board m =
        ⟨.ok (.ok (), ⟨.timingPrepared, link.dvi⟩), events, m'⟩ ∧
      (t.horizontal.total ≤ 65535 → t.vertical.total ≤ 65535 → Describes m'.words t) ∧
      (∀ x ∈ lengthPairs t, ∀ o ∈ [x.offset, x.offset + 4],
        storesTo o (storesOf events) = [(.hdmi, ⟨o, m'.words .hdmi o⟩)]) ∧
      unusedBlocks.Pairwise (fun a b => a + unusedSize ≤ b) ∧
      ∀ base ∈ unusedBlocks, (∀ x ∈ unusedPairs base, InUnused base x.offset) ∧
        (storesOf events).filter (fun x => x.1 = .hdmi ∧ InUnused base x.2.offset) =
          onHdmi (unusedPairs base) := by
  obtain ⟨events, m', run, words, stores⟩ := prepare_stored t link allowed m
  have fit : ∀ n ∈ axisLengths t.horizontal ++ axisLengths t.vertical, n < UInt32.size :=
    List.forall_mem_append.mpr ⟨axisLengths_fit _, axisLengths_fit _⟩
  refine ⟨fit, events, m', run, ?lengths, ?once, unusedBlocks_apart, ?unused⟩
  case lengths =>
    intro wide tall
    rw [words]
    exact describes_of_lengths (lengths_held m.words wide tall)
  case once =>
    intro x hx o ho
    obtain ⟨y, hy, rfl⟩ : ∃ y ∈ bytePair x.offset (.ofNat x.length), y.offset = o := by
      rcases List.mem_cons.mp ho with rfl | ho
      · exact ⟨_, .head _, rfl⟩
      · obtain rfl := List.mem_singleton.mp ho
        exact ⟨_, .tail _ (.head _), rfl⟩
    have written := lengths_written t x hx y hy
    rw [stores, words, storesTo_once (raster_once t) written,
      place_onHdmi_mem (raster_once t) written]
  case unused =>
    intro base hbase
    refine ⟨unusedPairs_inside base, ?_⟩
    rw [stores, ← raster_unused t base hbase, onHdmi, onHdmi, List.filter_map]
    congr 2
    funext x
    simp

/-- The raster of 1080 lines. -/
theorem fhd1080_described :
    Phase.phyReady ∈ [Phase.phyReady, .timingPrepared] ∧
    Video.Preset.fhd1080.timing.horizontal.total ≤ 65535 ∧
    Video.Preset.fhd1080.timing.vertical.total ≤ 65535 ∧
    ∃ events m', ((prepare Video.Preset.fhd1080.timing).exec ⟨.phyReady, false⟩).run board
        lockedWindows = ⟨.ok (.ok (), ⟨.timingPrepared, false⟩), events, m'⟩ ∧
      Describes m'.words Video.Preset.fhd1080.timing ∧
      pairValue m'.words Register.hLine = 2200 ∧ pairValue m'.words Register.vLine = 1125 := by
  have allowed : Phase.phyReady ∈ [Phase.phyReady, .timingPrepared] := by decide
  have wide : Video.Preset.fhd1080.timing.horizontal.total ≤ 65535 := by decide
  have tall : Video.Preset.fhd1080.timing.vertical.total ≤ 65535 := by decide
  obtain ⟨-, events, m', run, lengths, -⟩ :=
    raster_described Video.Preset.fhd1080.timing ⟨.phyReady, false⟩ allowed lockedWindows
  have described := lengths wide tall
  have held := described.lengths
  simp only [lengthPairs, List.forall_mem_cons] at held
  obtain ⟨-, -, -, vLine, hLine, -⟩ := held
  exact ⟨allowed, wide, tall, events, m', run, described, hLine.value, vLine.value⟩

end Bringup.Link
