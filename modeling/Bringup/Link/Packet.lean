import Bringup.Link.Infoframe
import Bringup.Link.Register
import Bringup.Window

namespace Bringup.Link

/-- Registers of one kind of packet. -/
structure Packet where
  control : Nat
  header : Nat
  payload : Nat
  checksum : Nat
  deriving DecidableEq, Repr

namespace Packet

def vendor : Packet :=
  ⟨Register.vendorControl, Register.vendorHeader, Register.vendorPayload, Register.vendorChecksum⟩

def video : Packet :=
  ⟨Register.videoControl, Register.videoHeader, Register.videoPayload, Register.videoChecksum⟩

def audio : Packet :=
  ⟨Register.audioControl, Register.audioHeader, Register.audioPayload, Register.audioChecksum⟩

/-- Control word of a packet that is not sent. -/
def never : UInt32 := 0

/-- Control word of a packet that is sent with every frame. -/
def everyFrame : UInt32 := 0x02

/-- A byte to each word from an offset on. -/
def byteWrites (offset : Nat) (bytes : List UInt8) : List WordWrite :=
  bytes.zipIdx.map fun (byte, i) => ⟨offset + 4 * i, byte.toUInt32⟩

def frameWrites (p : Packet) (f : Infoframe) : Checked (List WordWrite) := do
  let payload ← f.payload
  let check ← f.check
  return byteWrites p.header f.header ++ byteWrites p.payload payload ++
    [⟨p.checksum, check.toUInt32⟩]

def switchOff (p : Packet) : Program Unit := Window.hdmi.store p.control never

/-- Switch the packet on and fill it. Answers with the checksum it is sent with. -/
def send (p : Packet) (f : Infoframe) : Program UInt8 := do
  Window.hdmi.store p.control everyFrame
  Window.hdmi.storeAll (← p.frameWrites f)
  f.check

end Packet

end Bringup.Link
