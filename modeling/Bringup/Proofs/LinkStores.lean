import Bringup.Link.Operation
import Bringup.Proofs.Triple

/-! Which words of the transmitter each step stores to, whatever it is answered. The steps keep to
blocks of the window: the link, its packets, the audio inputs, the analogue part. -/
namespace Bringup

/-- Not a store to one of the transmitter's words at such an offset. -/
def Request.Spares (bad : Nat → Prop) : Request → Prop
  | .store .hdmi offset _ => ¬ bad offset
  | _ => True

namespace Link

open Program (Only)

variable {bad : Nat → Prop}

theorem only_store {offset : Nat} (h : ¬ bad offset) (value : UInt32) :
    (Window.hdmi.store offset value).Only (Request.Spares bad) :=
  .request h

/-- A masked store leaves the bits outside of its mask as they were. -/
theorem masked_and {mask bit : UInt32} (apart : bit &&& mask = 0) (word value : UInt32) :
    ((word &&& ~~~mask) ||| (value &&& mask)) &&& bit = word &&& bit := by
  apply UInt32.toBitVec_inj.mp
  apply BitVec.eq_of_getLsbD_eq
  intro i hi
  have hapart := congrArg (fun w : UInt32 => w.toBitVec.getLsbD i) apart
  simp only [UInt32.toBitVec_and, UInt32.toBitVec_or, UInt32.toBitVec_not, BitVec.getLsbD_and,
    BitVec.getLsbD_or, BitVec.getLsbD_not, UInt32.toBitVec_zero, BitVec.getLsbD_zero] at hapart ⊢
  cases hbit : bit.toBitVec.getLsbD i <;> simp_all

theorem only_storeMasked {offset : Nat} (h : ¬ bad offset) (value mask : UInt32) :
    (Window.hdmi.storeMasked offset value mask).Only (Request.Spares bad) :=
  Only.bind (.request trivial) fun _ => only_store h _

theorem only_storeAll {writes : List WordWrite} (h : ∀ x ∈ writes, ¬ bad x.offset) :
    (Window.hdmi.storeAll writes).Only (Request.Spares bad) :=
  .forM fun x hx => only_store (h x hx) x.value

theorem only_displayTop (writes : List WordWrite) :
    (Window.displayTop.storeAll writes).Only (Request.Spares bad) :=
  .forM fun _ _ => .request trivial

theorem only_log (level : Log.Level) (text : String) :
    (Program.log level text).Only (Request.Spares bad) :=
  .request trivial

/-! ## Where each list of writes lies -/

/-- Where writes lie is a matter of their offsets alone. -/
theorem forall_offset {P : Nat → Prop} {writes : List WordWrite} {offsets : List Nat}
    (hP : ∀ o ∈ offsets, P o) (h : writes.map (·.offset) = offsets) : ∀ x ∈ writes, P x.offset :=
  fun _ hx => hP _ (h ▸ List.mem_map_of_mem hx)

theorem raster_offsets (t : Video.Timing) :
    ∀ x ∈ Raster.writes t, x.offset < Register.digitalBase := by
  -- The offsets are the same for every timing.
  have offsets : (Raster.writes t).map (·.offset) =
      (Raster.writes Video.Preset.hd720.timing).map (·.offset) := rfl
  have bound : ∀ o ∈ (Raster.writes Video.Preset.hd720.timing).map (·.offset),
      o < Register.digitalBase := by decide +kernel
  exact forall_offset bound offsets

/-- The raster comes to the first control word once, and first of all. -/
theorem raster_tail (t : Video.Timing) :
    ∀ x ∈ (Raster.writes t).tail, ¬ x.offset = Register.control0 := by
  have offsets : (Raster.writes t).tail.map (·.offset) =
      (Raster.writes Video.Preset.hd720.timing).tail.map (·.offset) := rfl
  have elsewhere : ∀ o ∈ (Raster.writes Video.Preset.hd720.timing).tail.map (·.offset),
      ¬ o = Register.control0 := by decide +kernel
  exact forall_offset elsewhere offsets

theorem analog_offsets (p : Video.Preset) :
    (∀ x ∈ Analog.doubled (Analog.loadWrites p), Register.analogBase ≤ x.offset) ∧
    ∀ x ∈ Analog.doubled Analog.switchOff, Register.analogBase ≤ x.offset := by
  cases p <;> decide +kernel

theorem byteWrites_offsets (offset : Nat) (bytes : List UInt8) :
    ∀ x ∈ Packet.byteWrites offset bytes,
      offset ≤ x.offset ∧ x.offset < offset + 4 * bytes.length := by
  intro x hx
  obtain ⟨⟨byte, i⟩, hmem, rfl⟩ := List.mem_map.mp hx
  have hi := List.snd_lt_of_mem_zipIdx hmem
  simp only at hi ⊢
  omega

/-- The registers of a frame, once its checksum is known. -/
def Packet.fill (p : Packet) (f : Infoframe) (check : UInt8) : List WordWrite :=
  byteWrites p.header f.header ++ byteWrites p.payload (f.body.toList.take f.length.toNat) ++
    [⟨p.checksum, check.toUInt32⟩]

def Infoframe.sum (f : Infoframe) : UInt8 :=
  checksum f.header (f.body.toList.take f.length.toNat)

/-- A frame that claims no more than it holds is sent without a fault. -/
theorem send_eq (p : Packet) {f : Infoframe} (h : f.length.toNat ≤ Infoframe.capacity) :
    p.send f = do
      Window.hdmi.store p.control Packet.everyFrame
      Window.hdmi.storeAll (p.fill f f.sum)
      return f.sum := by
  have payload : f.payload = .ok (f.body.toList.take f.length.toNat) := if_pos h
  have check : f.check = .ok f.sum := by
    rw [Infoframe.check, payload]
    rfl
  have writes : p.frameWrites f = .ok (p.fill f f.sum) := by
    rw [Packet.frameWrites, check, payload]
    rfl
  rw [Packet.send, writes, check]
  rfl

/-- The block of the window that holds clock recovery and the packets. -/
def packetBase : Nat := Register.linkBase + 0x400

/-- The packet's registers lie in the packet block, with room for a whole body. -/
structure Packet.Placed (p : Packet) : Prop where
  control : packetBase ≤ p.control ∧ p.control < Register.digitalBase
  header : packetBase ≤ p.header ∧ p.header + 4 * 3 ≤ Register.digitalBase
  payload : packetBase ≤ p.payload ∧ p.payload + 4 * Infoframe.capacity ≤ Register.digitalBase
  checksum : packetBase ≤ p.checksum ∧ p.checksum < Register.digitalBase

theorem vendor_placed : Packet.vendor.Placed := by constructor <;> decide

theorem video_placed : Packet.video.Placed := by constructor <;> decide

theorem audio_placed : Packet.audio.Placed := by constructor <;> decide

theorem fill_offsets {p : Packet} (placed : p.Placed) {f : Infoframe}
    (h : f.length.toNat ≤ Infoframe.capacity) (check : UInt8) :
    ∀ x ∈ p.fill f check, packetBase ≤ x.offset ∧ x.offset < Register.digitalBase := by
  have length : (f.body.toList.take f.length.toNat).length ≤ Infoframe.capacity := by
    rw [List.length_take]
    omega
  have three : f.header.length = 3 := rfl
  obtain ⟨-, header, payload, checksum⟩ := placed
  intro x hx
  simp only [Packet.fill, List.mem_append, List.mem_singleton] at hx
  rcases hx with (hx | hx) | rfl
  · have := byteWrites_offsets _ _ x hx
    omega
  · have := byteWrites_offsets _ _ x hx
    omega
  · exact checksum

theorem video_fits (code : UInt8) (t : Video.Timing) :
    (Infoframe.video code t).length.toNat ≤ Infoframe.capacity := by
  unfold Infoframe.video
  have thirteen : (13 : UInt8).toNat ≤ Infoframe.capacity := by decide
  split
  exact thirteen

theorem vendor_fits {format : VideoFormat} {f : Infoframe} (h : Infoframe.vendor format = some f) :
    f.length.toNat ≤ Infoframe.capacity := by
  cases format with
  | flat => cases h
  | stereo packing =>
    have six : (6 : UInt8).toNat ≤ Infoframe.capacity := by decide
    have five : (5 : UInt8).toNat ≤ Infoframe.capacity := by decide
    unfold Infoframe.vendor at h
    simp only at h
    split at h
    · obtain rfl := Option.some.inj h
      exact six
    · obtain rfl := Option.some.inj h
      exact five

/-- The registers of the clock ratio. -/
def ratioWrites (clock : AudioClock) : List WordWrite :=
  [Register.clockN0, Register.clockN1, Register.clockN2].zipWith
    (fun offset byte => ⟨offset, byte.toUInt32⟩) clock.bytes

/-! ## What each step stores -/

section
variable (h : ∀ offset, packetBase ≤ offset → offset < Register.digitalBase → ¬ bad offset)
include h

theorem only_switchOff {p : Packet} (placed : p.Placed) :
    p.switchOff.Only (Request.Spares bad) :=
  only_store (h _ placed.control.1 placed.control.2) _

theorem only_send {p : Packet} (placed : p.Placed) {f : Infoframe}
    (hf : f.length.toNat ≤ Infoframe.capacity) : (p.send f).Only (Request.Spares bad) := by
  rw [send_eq p hf]
  refine Only.bind (only_store (h _ placed.control.1 placed.control.2) _) fun _ => ?_
  refine Only.bind (only_storeAll fun x hx => ?_) fun _ => trivial
  obtain ⟨least, below⟩ := fill_offsets placed hf f.sum x hx
  exact h _ least below

theorem only_ratioWrites (clock : AudioClock) :
    (Window.hdmi.storeAll (ratioWrites clock)).Only (Request.Spares bad) := by
  have block : ∀ o ∈ [Register.clockN0, Register.clockN1, Register.clockN2],
      packetBase ≤ o ∧ o < Register.digitalBase := by decide
  exact only_storeAll (forall_offset (fun o ho => h o (block o ho).1 (block o ho).2) rfl)

theorem only_clockControl (value : UInt32) :
    (Window.hdmi.store Register.clockControl value).Only (Request.Spares bad) :=
  only_store (h _ (by decide) (by decide)) value

end

theorem only_raster (h : ∀ offset < Register.digitalBase, ¬ bad offset) (t : Video.Timing) :
    (Window.hdmi.storeAll (Raster.writes t)).Only (Request.Spares bad) :=
  only_storeAll fun x hx => h _ (raster_offsets t x hx)

theorem only_digitalAudio
    (h : ∀ offset, Register.digitalBase ≤ offset → offset < Register.analogBase → ¬ bad offset)
    (codec : AudioCodec) (bits : UInt32) :
    (DigitalAudio.setUp codec bits).Only (Request.Spares bad) := by
  have block (writes : List WordWrite) (hw : ∀ x ∈ writes, Register.digitalBase ≤ x.offset ∧
      x.offset < Register.analogBase) : (Window.hdmi.storeAll writes).Only (Request.Spares bad) :=
    only_storeAll fun x hx => h _ (hw x hx).1 (hw x hx).2
  have users : ∀ o ∈ [Register.digitalUser1, Register.digitalUser2, Register.digitalUser3,
      Register.digitalUser4], Register.digitalBase ≤ o ∧ o < Register.analogBase := by decide
  have user (repetition : UInt32) : ∀ x ∈ DigitalAudio.userWrites repetition,
      Register.digitalBase ≤ x.offset ∧ x.offset < Register.analogBase := forall_offset users rfl
  have clock : ¬ bad Register.digitalClock := h _ (by decide) (by decide)
  have operation : ¬ bad Register.digitalOperation := h _ (by decide) (by decide)
  exact (block _ (by decide)).bind fun _ => (only_log _ _).bind fun _ =>
    (block _ (user _)).bind fun _ => (block _ (by decide)).bind fun _ =>
    (only_storeMasked clock _ _).bind fun _ => (only_storeMasked clock _ _).bind fun _ =>
    (only_store operation _).bind fun _ => only_store operation _

theorem only_analog (h : ∀ offset, Register.analogBase ≤ offset → ¬ bad offset)
    {writes : List WordWrite} (hw : ∀ x ∈ Analog.doubled writes, Register.analogBase ≤ x.offset) :
    (Analog.store writes).Only (Request.Spares bad) :=
  only_storeAll fun x hx => h _ (hw x hx)

theorem only_awaitLock {ok : Request → Prop} (looks : ok (.load .hdmi Register.analogStatus))
    (waits : ok (.wait Analog.pollInterval)) (budget : Nat) :
    (Analog.awaitLock budget).Only ok := by
  induction budget with
  | zero => trivial
  | succ budget ih =>
    refine Only.bind (.request looks) fun status => ?_
    split
    · trivial
    · exact Only.bind (.request waits) fun _ => ih

theorem only_pulse {ok : Request → Prop} (resets : ∀ line asserted, ok (.reset line asserted)) :
    pulseCore.Only ok :=
  (Only.request (resets _ _)).bind fun _ => (Only.request (resets _ _)).bind fun _ =>
    (Only.request (resets _ _)).bind fun _ => .request (resets _ _)

theorem only_enableAudio (h : ¬ bad Register.control0) (on : Bool) :
    (enableAudio on).Only (Request.Spares bad) :=
  only_storeMasked h _ _

end Link

end Bringup
