import Bringup.Link.Sequence

namespace Bringup.Link

inductive Operation where
  | pulseCore
  | loadAnalog (preset : Video.Preset)
  | disable
  | releaseResets
  | awaitAnalog
  | selectSource (source : Source)
  | prepare (timing : Video.Timing)
  | sendInfoframes (code : UInt8) (timing : Video.Timing) (format : VideoFormat)
  | setAudioClock (rate : UInt32)
  | setUpDigitalAudio (codec : AudioCodec) (bits : UInt32)
  | setUpAudio
  | enableAudio (on : Bool)
  | setDvi (dvi : Bool)
  | setUp (source : Source) (preset : Video.Preset)
  | enable (preset : Video.Preset)
  | display (controller preset : UInt8)
  deriving DecidableEq, Repr

/-- Only a full bring-up answers with anything: the size of the screen. -/
def Operation.perform : Operation → Action (Option Video.Resolution)
  | pulseCore => do Link.pulseCore; return none
  | loadAnalog preset => do Link.loadAnalog preset; return none
  | disable => do Link.disable; return none
  | releaseResets => do Link.releaseResets; return none
  | awaitAnalog => do Link.awaitAnalog; return none
  | selectSource source => do Link.selectSource source; return none
  | prepare timing => do Link.prepare timing; return none
  | sendInfoframes code timing format => do Link.sendInfoframes code timing format; return none
  | setAudioClock rate => do Link.setAudioClock rate; return none
  | setUpDigitalAudio codec bits => do DigitalAudio.setUp codec bits; return none
  | setUpAudio => do Link.setUpAudio; return none
  | enableAudio on => do Link.enableAudio on; return none
  | setDvi dvi => do Link.setDvi dvi; return none
  | setUp source preset => do Link.setUp source preset; return none
  | enable preset => do Link.enable preset; return none
  | display controller preset => return some (← Link.display controller preset)

end Bringup.Link
