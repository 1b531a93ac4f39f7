import Bringup.Link.Sequence

/-! What the steps of bring-up store, word by word as the transmitter is to be programmed: the
analogue part for each mode, and the registers of a raster. The steps store just these words. -/
namespace Bringup.Link

/-! ## The analogue part -/

/-- A word stored twice in a row, as the analogue part wants it. -/
def twice (offset : Nat) (value : UInt32) : List WordWrite := [⟨offset, value⟩, ⟨offset, value⟩]

/-- The bytes of a mode's clock, one to a word. -/
def clockBytes : Video.Preset → List UInt32
  | .hd720 => [
      0xD1, 0x1F, 0x10, 0x40, 0x40, 0xF8, 0xC8, 0x81, 0xE8, 0xBA, 0xD8, 0x45,
      0xA0, 0xAC, 0x80, 0x08, 0x80, 0x09, 0x84, 0x05, 0x22, 0x24, 0x86, 0x54,
      0xA5, 0x24, 0x01, 0x00, 0x00, 0x01, 0x80, 0x10]
  | .fhd1080 => [
      0xD1, 0x1F, 0x00, 0x40, 0x40, 0xF8, 0xC8, 0x81, 0xE8, 0xBA, 0xD8, 0x45,
      0xA0, 0xAC, 0x80, 0x08, 0x80, 0x09, 0x84, 0x05, 0x22, 0x24, 0x86, 0x54,
      0x4B, 0x25, 0x03, 0x00, 0x00, 0x01, 0x80]
  | .wide720 => [
      0xD1, 0x23, 0x11, 0x40, 0x0C, 0xFB, 0xC8, 0x85, 0xE8, 0xD1, 0xD8, 0x45,
      0xA0, 0xAC, 0x80, 0x08, 0x80, 0x09, 0x84, 0x05, 0x22, 0x24, 0x86, 0x54,
      0x93, 0x24, 0x01, 0x00, 0x00, 0x01, 0x80, 0x10]

/-- A whole load of the analogue part. The word that ends the mode set comes two times two. -/
def clockWords (p : Video.Preset) : List WordWrite :=
  twice 0x5007C 0 ++ twice 0x50004 0 ++ twice 0x50024 0x80 ++
  (clockBytes p).zipIdx.flatMap (fun (byte, i) => twice (0x50004 + 4 * i) byte) ++
  twice 0x5007C 0x80 ++ twice 0x5007C 0x80

theorem doubled_loadWrites (p : Video.Preset) :
    Analog.doubled (Analog.loadWrites p) = clockWords p := by
  cases p <;> rfl

/-! ## The raster -/

/-- A length over two words, its low byte first. -/
def lowHigh (offset length : Nat) : List WordWrite :=
  [⟨offset, .ofNat (length % 256)⟩, ⟨offset + 4, .ofNat (length / 256 % 256)⟩]

/-- A position over two words. Two pixels are taken off the low byte. -/
def lowHighEarly (offset position : Nat) : List WordWrite :=
  [⟨offset, .ofNat (position % 256) - 2⟩, ⟨offset + 4, .ofNat (position / 256)⟩]

/-- No blue screen, normal encoding, hot-plug interrupts, HDMI signalling. -/
def modeWords : List WordWrite := [
  ⟨0x10000, 0x10⟩, ⟨0x10060, 0x5555⟩, ⟨0x10064, 0x5555⟩, ⟨0x10058, 0x5555⟩, ⟨0x1005C, 0x5555⟩,
  ⟨0x10050, 0x5555⟩, ⟨0x10054, 0x5555⟩, ⟨0x10004, 0⟩, ⟨0x10008, 0⟩, ⟨0x00000, 0x4C⟩,
  ⟨0x10020, 0x17⟩, ⟨0x10030, 0⟩, ⟨0x10040, 0x02⟩]

/-- Blanks and totals, polarities, then start and end of sync across and down. -/
def lengthWords (t : Video.Timing) : List WordWrite :=
  let blank (a : Video.Axis) : Nat := a.frontPorch.toNat + a.syncWidth.toNat + a.backPorch.toNat
  let total (a : Video.Axis) : Nat := a.active.toNat + blank a
  let polarity : UInt32 := if t.horizontal.active = 1280 then 1 else 0
  lowHigh 0x100A0 (blank t.horizontal) ++
  lowHigh 0x100B8 (blank t.vertical) ++
  lowHigh 0x100B0 (total t.vertical) ++
  lowHigh 0x100C0 (total t.vertical) ++
  lowHigh 0x100C8 (total t.horizontal) ++
  [⟨0x100E0, polarity⟩, ⟨0x100E4, polarity⟩, ⟨0x100E8, 0⟩] ++
  lowHighEarly 0x10170 t.horizontal.frontPorch.toNat ++
  lowHighEarly 0x10178 (t.horizontal.frontPorch.toNat + t.horizontal.syncWidth.toNat) ++
  lowHigh 0x10188 t.vertical.frontPorch.toNat ++
  lowHigh 0x10180 (t.vertical.frontPorch.toNat + t.vertical.syncWidth.toNat)

/-- Three blocks of six pairs that only interlaced and 3D modes would need. -/
def unusedWords : List WordWrite :=
  [0x10190, 0x101C0, 0x101F0].flatMap fun base =>
    (List.range 6).flatMap fun i => [⟨base + 8 * i, 0xFF⟩, ⟨base + 8 * i + 4, 0xFF⟩]

/-- Colours as they are, when packets may be sent, and no test pattern. -/
def sendWords : List WordWrite := [
  ⟨0x10230, 0⟩, ⟨0x10234, 0⟩, ⟨0x10240, 0xFD⟩, ⟨0x10244, 0x01⟩, ⟨0x10248, 0x0D⟩,
  ⟨0x1024C, 0x3A⟩, ⟨0x10250, 0x08⟩, ⟨0x10260, 0⟩, ⟨0x10264, 0⟩, ⟨0x10500, 0x0A⟩]

/-- All words that describe a raster. -/
def rasterWords (t : Video.Timing) : List WordWrite :=
  modeWords ++ lengthWords t ++ unusedWords ++ sendWords

section
variable {n : Nat} (h : n < UInt32.size)
include h

theorem toNat_length : (UInt32.ofNat n).toNat = n := by
  rw [UInt32.toNat_ofNat', Nat.mod_eq_of_lt h]

theorem toNat_low : (UInt32.ofNat n &&& 0xFF).toNat = n % 256 := by
  rw [UInt32.toNat_and, toNat_length h]
  exact Nat.and_two_pow_sub_one_eq_mod n 8

theorem toNat_high : (UInt32.ofNat n >>> 8).toNat = n / 256 := by
  rw [UInt32.toNat_shiftRight, toNat_length h]
  exact Nat.shiftRight_eq_div_pow n 8

theorem low_eq : UInt32.ofNat n &&& 0xFF = .ofNat (n % 256) := by
  apply UInt32.toNat_inj.mp
  rw [toNat_low h, toNat_length (Nat.lt_of_le_of_lt (Nat.mod_le n 256) h)]

theorem high_eq : UInt32.ofNat n >>> 8 = .ofNat (n / 256) := by
  apply UInt32.toNat_inj.mp
  rw [toNat_high h, toNat_length (Nat.lt_of_le_of_lt (Nat.div_le_self n 256) h)]

theorem bytePair_ofNat (offset : Nat) : bytePair offset (.ofNat n) = lowHigh offset n := by
  have above : n / 256 < UInt32.size := Nat.lt_of_le_of_lt (Nat.div_le_self n 256) h
  rw [bytePair, lowHigh, high_eq h, low_eq h, low_eq above]

theorem earlyPair_ofNat (offset : Nat) : earlyPair offset (.ofNat n) = lowHighEarly offset n := by
  rw [earlyPair, lowHighEarly, high_eq h, low_eq h]

end

/-- The lengths that the link is told, with all partial sums on the way to them. -/
def axisLengths (a : Video.Axis) : List Nat := [a.syncStart, a.syncEnd, a.blank, a.total]

theorem axisLengths_fit (a : Video.Axis) : ∀ n ∈ axisLengths a, n < UInt32.size := by
  have active := a.active.toNat_lt
  have front := a.frontPorch.toNat_lt
  have sync := a.syncWidth.toNat_lt
  have back := a.backPorch.toNat_lt
  have size : UInt32.size = 4294967296 := rfl
  simp only [axisLengths, Video.Axis.total, Video.Axis.blank, Video.Axis.syncEnd,
    Video.Axis.syncStart, List.forall_mem_cons, size]
  exact ⟨by omega, by omega, by omega, by omega, fun _ h => absurd h List.not_mem_nil⟩

/-- Setting a raster stores all of its words. -/
theorem raster_writes (t : Video.Timing) : Raster.writes t = rasterWords t := by
  have across := axisLengths_fit t.horizontal
  have down := axisLengths_fit t.vertical
  simp only [axisLengths, List.forall_mem_cons] at across down
  obtain ⟨start, stop, blank, total, -⟩ := across
  obtain ⟨start', stop', blank', total', -⟩ := down
  have mode : Raster.modeWrites = modeWords := rfl
  have unused : Raster.unusedWrites = unusedWords := rfl
  have send : Raster.sendWrites = sendWords := rfl
  have lengths : Raster.blankWrites t ++ Raster.syncWrites t = lengthWords t := by
    simp only [Raster.blankWrites, Raster.syncWrites, bytePair_ofNat blank, bytePair_ofNat blank',
      bytePair_ofNat total, bytePair_ofNat total', earlyPair_ofNat start, earlyPair_ofNat stop,
      bytePair_ofNat start', bytePair_ofNat stop', lengthWords, List.append_assoc]
    rfl
  rw [Raster.writes, List.append_assoc Raster.modeWrites, mode, unused, send, lengths, rasterWords]

end Bringup.Link
