import Bringup.Proofs.BringUpStores
import Bringup.Proofs.BringUpWords

/-! Horizontal sync is programmed two pixels early. A position takes two registers of one byte each,
and the two pixels are taken off the low byte alone. So where the low byte is less than two it wraps
around, and the high byte is not asked. -/
namespace Bringup.Link

open WindowMemory (board)

/-- The pair of registers holds two bytes, which come to a position two pixels before this one. -/
def Early (words : WindowWords) (offset position : Nat) : Prop :=
  (words .hdmi offset).toNat ≤ 0xFF ∧ (words .hdmi (offset + 4)).toNat ≤ 0xFF ∧
    (words .hdmi offset).toNat + 256 * (words .hdmi (offset + 4)).toNat + 2 = position

/-- The pair of registers holds a low word that has wrapped around, and the high byte of the
position itself. -/
def Wrapped (words : WindowWords) (offset position : Nat) : Prop :=
  (words .hdmi offset).toNat + 2 = UInt32.size + position % 256 ∧
    (words .hdmi (offset + 4)).toNat = position / 256

/-! ## One pair -/

/-- Two is taken off, and what is missing wraps around. -/
theorem early_low {position : Nat} (h : position < UInt32.size) :
    ((UInt32.ofNat position &&& 0xFF) - 2).toNat =
      if 2 ≤ position % 256 then position % 256 - 2 else UInt32.size + position % 256 - 2 := by
  have two : (2 : UInt32).toNat = 2 := rfl
  have size : UInt32.size = 4294967296 := rfl
  rw [UInt32.toNat_sub, toNat_low h, two, size]
  split <;> omega

/-- What the pair holds is early as far as the low byte goes. -/
theorem early_pair {words : WindowWords} {offset position : Nat} (least : 2 ≤ position)
    (h : position ≤ 65535)
    (low : words .hdmi offset = (UInt32.ofNat position &&& 0xFF) - 2)
    (high : words .hdmi (offset + 4) = UInt32.ofNat position >>> 8) :
    (Early words offset position ↔ 2 ≤ position % 256) ∧
    (Wrapped words offset position ↔ position % 256 < 2) := by
  have size : UInt32.size = 4294967296 := rfl
  have fits : position < UInt32.size := by omega
  rw [Early, Wrapped, low, high, early_low fits, toNat_high fits, size]
  split <;> omega

/-! ## The raster -/

theorem prepare_ends (t : Video.Timing) (link : Link)
    (allowed : link.phase ∈ [.phyReady, .timingPrepared]) (m : WindowMemory) :
    ∃ events m', ((prepare t).exec link).run board m =
        ⟨.ok (.ok (), ⟨.timingPrepared, link.dvi⟩), events, m'⟩ ∧
      m'.words = place m.words (onHdmi (Raster.writes t)) := by
  obtain ⟨events, m', run, words, -⟩ := prepare_stored t link allowed m
  exact ⟨events, m', run, words⟩

/-- The raster comes to the sync registers once. -/
theorem sync_words (words : WindowWords) (t : Video.Timing) :
    let after := place words (onHdmi (Raster.writes t)) .hdmi
    (after Register.hSyncStart = (UInt32.ofNat t.horizontal.syncStart &&& 0xFF) - 2 ∧
      after (Register.hSyncStart + 4) = UInt32.ofNat t.horizontal.syncStart >>> 8) ∧
    after Register.hSyncEnd = (UInt32.ofNat t.horizontal.syncEnd &&& 0xFF) - 2 ∧
      after (Register.hSyncEnd + 4) = UInt32.ofNat t.horizontal.syncEnd >>> 8 :=
  ⟨⟨rfl, rfl⟩, rfl, rfl⟩

/-- Setting the raster succeeds once the clock has locked. Start and end of horizontal sync are then
programmed two pixels early if their low bytes are two at least. A low byte below that wraps around
to a word that is no byte, and the high byte stays as it was. -/
theorem sync_early_iff (t : Video.Timing) (link : Link)
    (allowed : link.phase ∈ [.phyReady, .timingPrepared]) (m : WindowMemory)
    (least : 2 ≤ t.horizontal.frontPorch.toNat) (most : t.horizontal.syncEnd ≤ 65535) :
    ∃ events m', ((prepare t).exec link).run board m =
        ⟨.ok (.ok (), ⟨.timingPrepared, link.dvi⟩), events, m'⟩ ∧
      (Early m'.words Register.hSyncStart t.horizontal.syncStart ↔
        2 ≤ t.horizontal.syncStart % 256) ∧
      (Wrapped m'.words Register.hSyncStart t.horizontal.syncStart ↔
        t.horizontal.syncStart % 256 < 2) ∧
      (Early m'.words Register.hSyncEnd t.horizontal.syncEnd ↔ 2 ≤ t.horizontal.syncEnd % 256) ∧
      (Wrapped m'.words Register.hSyncEnd t.horizontal.syncEnd ↔
        t.horizontal.syncEnd % 256 < 2) := by
  have order : t.horizontal.syncStart ≤ t.horizontal.syncEnd := Nat.le_add_right _ _
  have start_least : 2 ≤ t.horizontal.syncStart := least
  obtain ⟨events, m', run, words⟩ := prepare_ends t link allowed m
  obtain ⟨⟨startLow, startHigh⟩, endLow, endHigh⟩ := sync_words m.words t
  rw [← words] at startLow startHigh endLow endHigh
  have start := early_pair start_least (by omega) startLow startHigh
  have stop := early_pair (by omega) most endLow endHigh
  exact ⟨events, m', run, start.1, start.2, stop.1, stop.2⟩

/-- Sync of 720 lines, after 110 pixels and up to 150, is early. -/
theorem hd720_sync_early :
    Phase.phyReady ∈ [Phase.phyReady, .timingPrepared] ∧
    2 ≤ Video.Preset.hd720.timing.horizontal.frontPorch.toNat ∧
    Video.Preset.hd720.timing.horizontal.syncEnd ≤ 65535 ∧
    ∃ events m', ((prepare Video.Preset.hd720.timing).exec ⟨.phyReady, false⟩).run board
        lockedWindows = ⟨.ok (.ok (), ⟨.timingPrepared, false⟩), events, m'⟩ ∧
      Early m'.words Register.hSyncStart 110 ∧ Early m'.words Register.hSyncEnd 150 := by
  have allowed : Phase.phyReady ∈ [Phase.phyReady, .timingPrepared] := by decide
  have least : 2 ≤ Video.Preset.hd720.timing.horizontal.frontPorch.toNat := by decide
  have most : Video.Preset.hd720.timing.horizontal.syncEnd ≤ 65535 := by decide
  obtain ⟨events, m', run, start, -, stop, -⟩ :=
    sync_early_iff Video.Preset.hd720.timing ⟨.phyReady, false⟩ allowed lockedWindows least most
  exact ⟨allowed, least, most, events, m', run, start.mpr (by decide), stop.mpr (by decide)⟩

/-- A front porch of 256 pixels, and sync of 44. -/
def widePorch : Video.Timing :=
  { Video.Preset.hd720.timing with
    horizontal :=
      { Video.Preset.hd720.timing.horizontal with frontPorch := 256, syncWidth := 44 } }

/-- Sync ought to start at 254. The low register holds no byte then, and the high one still holds
that of 256. -/
theorem widePorch_sync_not_early :
    2 ≤ widePorch.horizontal.frontPorch.toNat ∧ widePorch.horizontal.syncEnd ≤ 65535 ∧
    ∃ events m', ((prepare widePorch).exec ⟨.phyReady, false⟩).run board lockedWindows =
        ⟨.ok (.ok (), ⟨.timingPrepared, false⟩), events, m'⟩ ∧
      ¬ Early m'.words Register.hSyncStart 256 ∧
      m'.words .hdmi Register.hSyncStart = 0xFFFFFFFE ∧
      m'.words .hdmi (Register.hSyncStart + 4) = 1 := by
  have allowed : Phase.phyReady ∈ [Phase.phyReady, .timingPrepared] := by decide
  obtain ⟨events, m', run, words⟩ :=
    prepare_ends widePorch ⟨.phyReady, false⟩ allowed lockedWindows
  have low : m'.words .hdmi Register.hSyncStart = 0xFFFFFFFE := by
    rw [words]
    rfl
  have high : m'.words .hdmi (Register.hSyncStart + 4) = 1 := by
    rw [words]
    rfl
  refine ⟨by decide, by decide, events, m', run, ?_, low, high⟩
  rw [Early, low, high]
  decide

end Bringup.Link
