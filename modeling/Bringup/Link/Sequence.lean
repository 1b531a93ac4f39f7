import Bringup.Link.Analog
import Bringup.Link.Audio
import Bringup.Link.Packet
import Bringup.Link.Raster

/-! Bring-up of the transmitter, in the order of its phases: load the analogue part, release
the resets, wait for the clock to lock, set the raster, send the infoframes, switch on. -/
namespace Bringup.Link

def assertReset (line : ResetLine) : Program Unit := .reset line true

def releaseReset (line : ResetLine) : Program Unit := .reset line false

/-- Pulse the resets of the analogue part and of the core. -/
def pulseCore : Program Unit := do
  assertReset .hdmiPhy
  assertReset .hdmi
  releaseReset .hdmiPhy
  releaseReset .hdmi

/-- Allowed in any phase, and starts bring-up over. -/
def loadAnalog (p : Video.Preset) : Action Unit := do
  Analog.store (Analog.loadWrites p)
  Program.log .debug s!"HDMI: phy configured for preset {p.index}"
  setPhase .phyConfigured

/-- Switch the analogue part off and forget all progress. -/
def disable : Action Unit := do
  Analog.store Analog.switchOff
  setPhase .uninitialized

def linkResets : List ResetLine := [.hdmiVideo, .hdmiSpdif, .hdmiTmds]

def releaseResets : Action Unit := do
  require [.phyConfigured]
  linkResets.forM fun line => assertReset line
  linkResets.forM fun line => releaseReset line
  setPhase .resetReleased

/-- A clock that does not lock in time is switched off. -/
def awaitAnalog : Action Unit := do
  require [.resetReleased]
  if ← Analog.awaitLock Analog.pollBudget then
    Program.log .info "HDMI: phy ready..."
    setPhase .phyReady
  else
    Program.log .error "HDMI: failed to wait for hdmiphy ready"
    disable
    throw .phyNotReady

def selectSource (s : Source) : Program Unit :=
  Window.displayTop.store Register.sourceMux (0x80000000 ||| (s.index.toUInt32 &&& 0x3))

/-- Start and end of one signal of the sync generator, the end in the upper half. -/
def span (start stop : Nat) : UInt32 := (UInt32.ofNat stop <<< 16) ||| (UInt32.ofNat start &&& 0xFFFF)

/-- Settings of the sync generator in the display top. -/
structure SyncGenerator where
  vsyncStart : Nat
  activeStart : Nat
  activeEnd : Nat
  vsyncPixelStart : Nat
  vsyncPixelEnd : Nat
  deriving DecidableEq, Repr

namespace SyncGenerator

def stopped : SyncGenerator := ⟨0, 0, 0, 0, 0⟩

def ofTiming (t : Video.Timing) : Checked SyncGenerator :=
  return {
    vsyncStart := ← t.vertical.lastActive
    activeStart := t.horizontal.activeStart
    activeEnd := t.horizontal.activeEnd
    vsyncPixelStart := t.vsyncPixelStart
    vsyncPixelEnd := t.vsyncPixelEnd }

def writes (g : SyncGenerator) : List WordWrite := [
  ⟨Register.syncControl0, .ofNat g.vsyncStart⟩,
  ⟨Register.syncControl1, span g.activeStart g.activeEnd⟩,
  ⟨Register.syncControl2, span g.vsyncPixelStart g.vsyncPixelEnd⟩]

end SyncGenerator

/-- Describe the raster to the link. May be repeated. -/
def prepare (t : Video.Timing) : Action Unit := do
  require [.phyReady, .timingPrepared]
  Window.hdmi.storeAll (Raster.writes t)
  setPhase .timingPrepared

/-- Send the infoframes for a mode. DVI sends none. -/
def sendInfoframes (code : UInt8) (t : Video.Timing) (format : VideoFormat) : Action Unit := do
  require [.timingPrepared]
  let link ← get
  if link.dvi then
    Packet.vendor.switchOff
    Packet.video.switchOff
    Packet.audio.switchOff
  else
    match Infoframe.vendor format with
    | some frame =>
        let check ← Packet.vendor.send frame
        Program.log .debug s!"HDMI: VSI checksum = 0x{Hex.byte check}"
    | none => Packet.vendor.switchOff
    let videoCheck ← Packet.video.send (.video code t)
    Program.log .debug s!"HDMI: AVI checksum = 0x{Hex.byte videoCheck}"
    let audioCheck ← Packet.audio.send .audio
    Program.log .debug s!"HDMI: AUI checksum = 0x{Hex.byte audioCheck}"
  setPhase .infoframesSet

/-- Mode register values for DVI and for HDMI. -/
def modeWord (dvi : Bool) : UInt32 := if dvi then 0x01 else 0x02

/-- DVI has no preambles and no guard bands; the bits that drop them. -/
def preambleWord (dvi : Bool) : UInt32 := if dvi then 0x22 else 0x00

def setDvi (dvi : Bool) : Action Unit := do
  modify fun link => { link with dvi }
  Window.hdmi.storeMasked Register.modeSelect (modeWord dvi) 0x3
  Window.hdmi.store Register.control2 (preambleWord dvi)

/-- Everything up to the raster. The sync generator has to stand still meanwhile. -/
def setUp (s : Source) (p : Video.Preset) : Action Unit := do
  loadAnalog p
  releaseResets
  awaitAnalog
  selectSource s
  Window.displayTop.storeAll SyncGenerator.stopped.writes
  prepare p.timing

/-- Bit of the first control word that switches the link on. -/
def systemBit : UInt32 := 0x01

/-- Raster, infoframes and audio once more, then the link and its sync generator go on. -/
def enable (p : Video.Preset) : Action Unit := do
  prepare p.timing
  sendInfoframes p.videoCode p.timing .flat
  setUpAudio
  enableAudio true
  setDvi false
  let control ← Window.hdmi.load Register.control0
  Window.hdmi.store Register.control0 (control ||| systemBit)
  let generator ← (SyncGenerator.ofTiming p.timing : Checked _)
  Window.displayTop.storeAll generator.writes
  setPhase .enabled

/-- Accept a value, or log what is wrong with it and stop. -/
def accept {α : Type} (complaint : String) : Except LinkError α → Action α
  | .ok a => return a
  | .error e => do
      Program.log .error complaint
      throw e

/-- Full bring-up of a display controller. -/
def display (controller preset : UInt8) : Action Video.Resolution := do
  Program.log .info s!"HDMI: display.{controller}"
  let mode ← accept s!"HDMI: not support preset {preset}" (presetOfIndex preset)
  let source ← accept s!"HDMI: no source for display.{controller}" (Source.ofIndex controller)
  let screen := mode.resolution
  Program.log .info
    s!"HDMI: display.{controller}, preset {mode.index} ({screen.width} * {screen.height})"
  pulseCore
  setUp source mode
  let feed ← (mode.feed : Checked _)
  Program.showDisplay { controller, screen, timing := mode.timing, feed }
  enable mode
  return screen

end Bringup.Link
