import Bringup.Link.Register
import Bringup.Link.State
import Bringup.Window

namespace Bringup.Link

/-- Ratio by which a sink recovers the audio clock. -/
structure AudioClock where
  n : UInt32
  cts : UInt32
  deriving DecidableEq, Repr

namespace AudioClock

/-- A rate that is not listed has no ratio. -/
def ofRate (rate : UInt32) : AudioClock :=
  if rate = 32000 then ⟨4096, 27000⟩
  else if rate = 44100 then ⟨6272, 30000⟩
  else if rate = 48000 then ⟨6144, 27000⟩
  else if rate = 88200 then ⟨12544, 30000⟩
  else if rate = 96000 then ⟨12288, 27000⟩
  else if rate = 176400 then ⟨25088, 30000⟩
  else if rate = 192000 then ⟨24576, 27000⟩
  else ⟨0, 0⟩

/-- The low three bytes of `n`, lowest first. -/
def bytes (c : AudioClock) : List UInt8 :=
  [c.n.toUInt8, (c.n >>> 8).toUInt8, (c.n >>> 16).toUInt8]

end AudioClock

inductive AudioCodec where
  | pcm
  | ac3
  | mp3
  deriving DecidableEq, Repr

namespace AudioCodec

def name : AudioCodec → String
  | pcm => "Pcm"
  | ac3 => "Ac3"
  | mp3 => "Mp3"

/-- Compressed audio travels in words of sixteen bits. -/
def sampleBits (codec : AudioCodec) (bits : UInt32) : UInt32 :=
  if codec = pcm then bits else 16

/-- Audio frames between two bursts, less one. Only AC-3 repeats. -/
def repetition (codec : AudioCodec) : UInt32 := if codec = ac3 then 1536 * 2 - 1 else 0

end AudioCodec

/-- Clock control words: send nothing, or send with a measured time stamp. -/
def clockOff : UInt32 := 0

def clockMeasured : UInt32 := 4

/-- Set up clock recovery for a sample rate. DVI has none. -/
def setAudioClock (rate : UInt32) : Action Unit := do
  let link ← get
  if link.dvi then
    Window.hdmi.store Register.clockControl clockOff
  else
    let clock := AudioClock.ofRate rate
    if clock.n = 0 then
      Program.log .warn s!"HDMI: no ACR parameters for {rate} Hz"
    Window.hdmi.storeAll (
      [Register.clockN0, Register.clockN1, Register.clockN2].zipWith
        (fun offset byte => ⟨offset, byte.toUInt32⟩) clock.bytes)
    Window.hdmi.store Register.clockControl clockMeasured

namespace DigitalAudio

/-- Manual word length and preamble, two-sample noise filter, whole words, user bits reported,
two bursts. -/
def config1 : UInt32 := 0x5F

def wordLength24 : UInt32 := 0x0B

def clockOn : UInt32 := 0x01

def checkStatus : UInt32 := 2

def checkStatusThenSend : UInt32 := 3

def receiverWrites : List WordWrite := [
  ⟨Register.serialClock, 0x01⟩,
  ⟨Register.digitalConfig1, config1⟩,
  ⟨Register.digitalConfig2, 0⟩]

def userWrites (repetition : UInt32) : List WordWrite := [
  ⟨Register.digitalUser1, ((repetition &&& 0xF) <<< 4) ||| wordLength24⟩,
  ⟨Register.digitalUser2, (repetition >>> 4) &&& 0xFF⟩,
  ⟨Register.digitalUser3, 0⟩,
  ⟨Register.digitalUser4, 0⟩]

/-- The digital input feeds every channel of the sample path. -/
def routeWrites : List WordWrite := [
  ⟨Register.serialMux, 0x11⟩,
  ⟨Register.serialChannels, 0xFF⟩,
  ⟨Register.serialUser, 0x03⟩]

/-- Set up the digital audio input, restart its clock, and let it lock before it sends. -/
def setUp (codec : AudioCodec) (bits : UInt32) : Program Unit := do
  Window.hdmi.storeAll receiverWrites
  Program.log .trace
    s!"HDMI: spdif {codec.name} {codec.sampleBits bits} bit, repetition {codec.repetition}"
  Window.hdmi.storeAll (userWrites codec.repetition)
  Window.hdmi.storeAll routeWrites
  Window.hdmi.storeMasked Register.digitalClock 0 clockOn
  Window.hdmi.storeMasked Register.digitalClock 0xFFFFFFFF clockOn
  Window.hdmi.store Register.digitalOperation checkStatus
  Window.hdmi.store Register.digitalOperation checkStatusThenSend

end DigitalAudio

def defaultSampleRate : UInt32 := 48000

def defaultSampleBits : UInt32 := 16

/-- Plain samples at 48 kHz over the digital input. -/
def setUpAudio : Action Unit := do
  setAudioClock defaultSampleRate
  DigitalAudio.setUp .pcm defaultSampleBits

/-- Bit of the first control word that lets audio samples through. -/
def audioBit : UInt32 := 0x04

def enableAudio (on : Bool) : Program Unit :=
  Window.hdmi.storeMasked Register.control0 (if on then 0xFFFFFFFF else 0) audioBit

end Bringup.Link
