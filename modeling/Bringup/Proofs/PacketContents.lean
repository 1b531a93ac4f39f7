import Bringup.Proofs.BringUpStores
import Mathlib.Algebra.Order.Ring.Nat

/-! What the packets' registers hold once infoframes have been sent. A packet that is on is one that
a receiver accepts: it is no longer than a body, and all that goes out of it sums to zero. What an
earlier, longer frame has left behind is not sent. -/
namespace Bringup.Link

open WindowMemory (board)

/-! ## Packets as they go out -/

/-- Words one after the other, from an offset on. -/
def wordsAt (words : WindowWords) (offset count : Nat) : List UInt32 :=
  (List.range count).map fun i => words .hdmi (offset + 4 * i)

/-- Where these words are. -/
def offsetsAt (offset count : Nat) : List Nat := (List.range count).map fun i => offset + 4 * i

namespace Packet

/-- The third word of the header says how much of the payload is sent. -/
def length (p : Packet) (words : WindowWords) : Nat := (words .hdmi (p.header + 8)).toNat

/-- All that is sent: the header, as much of the payload as it says, and the checksum. -/
def sent (p : Packet) (words : WindowWords) : List UInt32 :=
  wordsAt words p.header 3 ++ wordsAt words p.payload (p.length words) ++ [words .hdmi p.checksum]

/-- Registers of anything that may be sent. -/
def contents (p : Packet) : List Nat :=
  offsetsAt p.header 3 ++ offsetsAt p.payload Infoframe.capacity ++ [p.checksum]

def registers (p : Packet) : List Nat := p.control :: p.contents

/-- A receiver takes this for a packet. -/
structure Valid (p : Packet) (words : WindowWords) : Prop where
  fits : p.length words ≤ Infoframe.capacity
  bytes : ∀ word ∈ p.sent words, word.toNat ≤ 0xFF
  sum : ((p.sent words).map UInt32.toNat).sum % 256 = 0

/-- A receiver takes it for this frame. -/
structure Shows (p : Packet) (words : WindowWords) (f : Infoframe) : Prop where
  header : wordsAt words p.header 3 = f.header.map UInt8.toUInt32
  payload : f.payload.map (·.map UInt8.toUInt32) = .ok (wordsAt words p.payload (p.length words))

/-- The packet goes out with every frame. -/
def IsOn (p : Packet) (words : WindowWords) : Prop := words .hdmi p.control = everyFrame

/-- The packet never goes out. -/
def IsOff (p : Packet) (words : WindowWords) : Prop := words .hdmi p.control = never

structure Transmits (p : Packet) (words : WindowWords) (f : Infoframe) : Prop where
  control : p.IsOn words
  valid : p.Valid words
  shows : p.Shows words f

end Packet

/-! ## Sums of bytes -/

theorem toNat_foldl_add (bytes : List UInt8) (start : UInt8) :
    (bytes.foldl (· + ·) start).toNat = (start.toNat + (bytes.map UInt8.toNat).sum) % 256 := by
  induction bytes generalizing start with
  | nil => exact (Nat.mod_eq_of_lt start.toNat_lt).symm
  | cons byte bytes ih =>
    rw [List.foldl_cons, ih, UInt8.toNat_add, List.map_cons, List.sum_cons, Nat.mod_add_mod,
      Nat.add_assoc]

/-- The checksum makes up for all the rest. -/
theorem checksum_sum (header payload : List UInt8) :
    (((header ++ payload ++ [checksum header payload]).map UInt8.toNat).sum) % 256 = 0 := by
  have rest := toNat_foldl_add (header ++ payload) 0
  have zero : (0 : UInt8).toNat = 0 := rfl
  rw [zero, Nat.zero_add] at rest
  rw [List.map_append, List.sum_append, List.map_singleton, List.sum_singleton, checksum,
    UInt8.toNat_sub, rest, zero]
  omega

/-! ## Registers of a frame -/

theorem offsets_byteWrites (offset : Nat) (bytes : List UInt8) :
    (Packet.byteWrites offset bytes).map (·.offset) = offsetsAt offset bytes.length := by
  refine List.ext_getElem (by simp [Packet.byteWrites, offsetsAt]) fun i _ _ => ?_
  simp [Packet.byteWrites, offsetsAt]

/-- Bytes can be read back from the words that hold them. -/
theorem wordsAt_of_byteWrites {words : WindowWords} {offset : Nat} {bytes : List UInt8}
    (held : ∀ x ∈ Packet.byteWrites offset bytes, words .hdmi x.offset = x.value) :
    wordsAt words offset bytes.length = bytes.map UInt8.toUInt32 := by
  refine List.ext_getElem (by simp [wordsAt]) fun i _ hi => ?_
  rw [List.length_map] at hi
  have stored : (⟨offset + 4 * i, bytes[i].toUInt32⟩ : WordWrite) ∈
      Packet.byteWrites offset bytes :=
    List.mem_map.mpr ⟨(bytes[i], i), List.mem_zipIdx_iff_getElem?.mpr (by simp [hi]), rfl⟩
  simpa [wordsAt] using held _ stored

section
variable {p : Packet} {f : Infoframe} (fits : f.length.toNat ≤ Infoframe.capacity)
include fits

/-- What is sent of the body. -/
theorem length_sent_body : (f.body.toList.take f.length.toNat).length = f.length.toNat := by
  rw [List.length_take]
  exact Nat.min_eq_left (Nat.le_trans fits (Nat.le_of_eq f.body.length_toList.symm))

/-- A frame takes no more registers than the packet has, and each of them once. -/
theorem offsets_frame : ((p.frame f).map (·.offset)).Sublist p.registers := by
  have three : f.header.length = 3 := rfl
  have body : (offsetsAt p.payload f.length.toNat).Sublist
      (offsetsAt p.payload Infoframe.capacity) := (List.range_sublist.mpr fits).map _
  rw [Packet.frame, Packet.fill, List.map_cons, List.map_append, List.map_append,
    offsets_byteWrites, offsets_byteWrites, length_sent_body fits, three, Packet.registers]
  exact (((List.Sublist.refl _).append body).append (.refl _)).cons_cons _

/-- A packet that a frame has been written to sends that frame. -/
theorem transmits_of_held {words : WindowWords}
    (held : ∀ x ∈ p.frame f, words .hdmi x.offset = x.value) : p.Transmits words f := by
  have control : words .hdmi p.control = Packet.everyFrame := held _ (.head _)
  have filled : ∀ x ∈ p.fill f f.sum, words .hdmi x.offset = x.value :=
    fun x hx => held x (.tail _ hx)
  rw [Packet.fill] at filled
  simp only [List.forall_mem_append, List.forall_mem_singleton] at filled
  obtain ⟨⟨inHeader, inPayload⟩, check⟩ := filled
  have header : wordsAt words p.header 3 = f.header.map UInt8.toUInt32 :=
    wordsAt_of_byteWrites inHeader
  have length : p.length words = f.length.toNat := by
    have third : words .hdmi (p.header + 8) = f.length.toUInt32 :=
      inHeader ⟨p.header + 8, f.length.toUInt32⟩ (.tail _ (.tail _ (.head _)))
    rw [Packet.length, third]
    exact UInt8.toNat_toUInt32 _
  have payload : wordsAt words p.payload (p.length words) =
      (f.body.toList.take f.length.toNat).map UInt8.toUInt32 := by
    rw [length.trans (length_sent_body fits).symm]
    exact wordsAt_of_byteWrites inPayload
  have sent : p.sent words =
      (f.header ++ f.body.toList.take f.length.toNat ++ [f.sum]).map UInt8.toUInt32 := by
    rw [Packet.sent, header, payload, check, List.map_append, List.map_append, List.map_singleton]
  refine ⟨control, ⟨length ▸ fits, ?bytes, ?sum⟩, ⟨header, ?shown⟩⟩
  case bytes =>
    rw [sent]
    intro word hword
    obtain ⟨byte, -, rfl⟩ := List.mem_map.mp hword
    rw [UInt8.toNat_toUInt32]
    exact Nat.le_of_lt_succ byte.toNat_lt
  case sum =>
    rw [sent, List.map_map]
    exact checksum_sum _ _
  case shown =>
    rw [payload, Infoframe.payload, if_pos fits]
    rfl

end

/-! ## All three packets -/

def packets : List Packet := [.vendor, .video, .audio]

/-- No register of one packet reaches into a register of the other. -/
def Packet.Apart (p q : Packet) : Prop :=
  ∀ a ∈ p.registers, ∀ b ∈ q.registers, a + 4 ≤ b ∨ b + 4 ≤ a

instance (p q : Packet) : Decidable (p.Apart q) :=
  inferInstanceAs (Decidable (∀ a ∈ p.registers, ∀ b ∈ q.registers, a + 4 ≤ b ∨ b + 4 ≤ a))

theorem packets_apart : packets.Pairwise Packet.Apart := by decide +kernel

theorem registers_once :
    (Packet.vendor.registers ++ (Packet.video.registers ++ Packet.audio.registers)).Nodup := by
  decide +kernel

theorem vendorWrites_offsets (format : VideoFormat) :
    ((vendorWrites format).map (·.offset)).Sublist Packet.vendor.registers := by
  unfold vendorWrites
  split
  · rename_i f hf
    exact offsets_frame (vendor_fits hf)
  · exact List.singleton_sublist.mpr (.head _)

theorem infoframes_once (code : UInt8) (t : Video.Timing) (format : VideoFormat) :
    ((infoframeWrites code t format false).map (·.offset)).Nodup := by
  have video := offsets_frame (p := .video) (video_fits code t)
  have audio := offsets_frame (p := .audio) (f := .audio) (by decide)
  refine List.Nodup.sublist ?_ registers_once
  rw [infoframeWrites, if_neg Bool.false_ne_true, List.map_append, List.map_append]
  exact (vendorWrites_offsets format).append (video.append audio)

/-- What a receiver is told over HDMI. Vendor information goes with 3D, and with nothing else. -/
structure Announces (words : WindowWords) (code : UInt8) (t : Video.Timing)
    (format : VideoFormat) : Prop where
  video : Packet.video.Transmits words (.video code t)
  audio : Packet.audio.Transmits words .audio
  vendor : ∀ f, Infoframe.vendor format = some f → Packet.vendor.Transmits words f
  stereo : Packet.vendor.IsOn words ↔ ∃ packing, format = .stereo packing
  flat : Packet.vendor.IsOff words ↔ format = .flat

theorem vendor_of_stereo (packing : Structure3D) :
    ∃ f, Infoframe.vendor (.stereo packing) = some f := by
  cases packing <;> exact ⟨_, rfl⟩

theorem announces_of_held {words : WindowWords} {code : UInt8} {t : Video.Timing}
    {format : VideoFormat}
    (held : ∀ x ∈ infoframeWrites code t format false, words .hdmi x.offset = x.value) :
    Announces words code t format := by
  rw [infoframeWrites, if_neg Bool.false_ne_true] at held
  simp only [List.forall_mem_append] at held
  obtain ⟨vendor, video, audio⟩ := held
  have stereo {f : Infoframe} (hf : Infoframe.vendor format = some f) :
      Packet.vendor.Transmits words f :=
    transmits_of_held (vendor_fits hf) (by rwa [vendorWrites, hf] at vendor)
  have differ : ¬ Packet.everyFrame = Packet.never := by decide
  have shows := transmits_of_held (video_fits code t) video
  have sounds := transmits_of_held (p := .audio) (f := .audio) (by decide) audio
  cases format with
  | flat =>
    have off : Packet.vendor.IsOff words := vendor _ (.head _)
    refine ⟨shows, sounds, fun f hf => stereo hf, ⟨fun on => ?_, fun ofStereo => ?_⟩,
      fun _ => rfl, fun _ => off⟩
    · exact absurd (on.symm.trans off) differ
    · obtain ⟨_, same⟩ := ofStereo
      cases same
  | stereo packing =>
    obtain ⟨f, hf⟩ := vendor_of_stereo packing
    have on := (stereo hf).control
    refine ⟨shows, sounds, fun f hf => stereo hf, ⟨fun _ => ⟨packing, rfl⟩, fun _ => on⟩,
      fun off => ?_, fun ofFlat => ?_⟩
    · exact absurd (on.symm.trans off) differ
    · cases ofFlat

/-- The store that switches a packet off. -/
def Packet.silence (p : Packet) : WordWrite := ⟨p.control, never⟩

/-- Over DVI the three controls are stored to, and no more. -/
theorem infoframes_off (words : WindowWords) (code : UInt8) (t : Video.Timing)
    (format : VideoFormat) :
    (∀ p ∈ packets, p.IsOff (place words (onHdmi (infoframeWrites code t format true)))) ∧
    ∀ x ∈ onHdmi (infoframeWrites code t format true), ∀ p ∈ packets,
      x.2.offset ∉ p.contents := by
  have writes : infoframeWrites code t format true = packets.map Packet.silence := rfl
  have once : ((packets.map Packet.silence).map (·.offset)).Nodup := by decide
  have apart : ∀ p ∈ packets, ∀ q ∈ packets, p.control ∉ q.contents := by decide +kernel
  rw [writes]
  refine ⟨fun p hp => place_onHdmi_mem once (List.mem_map_of_mem hp), fun x hx => ?_⟩
  obtain ⟨y, hy, rfl⟩ := List.mem_map.mp hx
  obtain ⟨p, hp, rfl⟩ := List.mem_map.mp hy
  exact apart p hp

/-- Infoframes are sent once a raster has been set, and refused at any other time. Over HDMI a
receiver is told of the picture and its sound, and of 3D where there is any. Over DVI all packets
are off, and nothing that they would hold is stored. -/
theorem infoframes_valid (code : UInt8) (t : Video.Timing) (format : VideoFormat) (link : Link)
    (m : WindowMemory) :
    packets.Pairwise Packet.Apart ∧
    (link.phase ≠ .timingPrepared → (sendInfoframes code t format).exec link =
      pure (.error (.invalidState link.phase), link)) ∧
    (link.phase = .timingPrepared → ∃ events m',
      ((sendInfoframes code t format).exec link).run board m =
        ⟨.ok (.ok (), ⟨.infoframesSet, link.dvi⟩), events, m'⟩ ∧
      (link.dvi = false → Announces m'.words code t format) ∧
      (link.dvi = true → (∀ p ∈ packets, p.IsOff m'.words) ∧
        ∀ x ∈ storesOf events, ∀ p ∈ packets, x.2.offset ∉ p.contents)) := by
  refine ⟨packets_apart, fun other => exec_refused (by simpa using other) _, fun ready => ?_⟩
  obtain ⟨phase, dvi⟩ := link
  subst ready
  have carries : Carries m.words dvi dvi [] (sendInfoframes code t format)
      (onHdmi (infoframeWrites code t format dvi)) := carries_sendInfoframes code t format
  obtain ⟨events, m', run, words, stores⟩ := carries.ends (sendInfoframes_succeeds code t format)
  refine ⟨events, m', run, fun hdmi => ?_, fun signal => ?_⟩
  · subst hdmi
    refine announces_of_held fun x hx => ?_
    rw [words]
    exact place_onHdmi_mem (infoframes_once code t format) hx
  · subst signal
    obtain ⟨off, silent⟩ := infoframes_off m.words code t format
    rw [words, stores]
    exact ⟨off, silent⟩

/-- What is sent of a 3D picture side by side, where longer frames have been before. -/
theorem sideBySide_valid : ∃ events m',
    ((sendInfoframes 4 Video.Preset.hd720.timing (.stereo .sideBySideHalf)).exec
      ⟨.timingPrepared, false⟩).run board ⟨fun _ _ => 27, fun _ => 0⟩ =
        ⟨.ok (.ok (), ⟨.infoframesSet, false⟩), events, m'⟩ ∧
    Packet.vendor.Valid m'.words ∧ Packet.vendor.length m'.words = 6 := by
  obtain ⟨-, -, sends⟩ := infoframes_valid 4 Video.Preset.hd720.timing (.stereo .sideBySideHalf)
    ⟨.timingPrepared, false⟩ ⟨fun _ _ => 27, fun _ => 0⟩
  obtain ⟨events, m', run, announces, -⟩ := sends rfl
  obtain ⟨-, valid, shows⟩ := (announces rfl).vendor _ rfl
  have third : m'.words .hdmi (Packet.vendor.header + 8) = 6 :=
    (List.cons.inj (List.cons.inj (List.cons.inj shows.header).2).2).1
  refine ⟨events, m', run, valid, ?_⟩
  rw [Packet.length, third]
  rfl

end Bringup.Link
