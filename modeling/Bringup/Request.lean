import Bringup.Video.Preset

namespace Bringup

/-! ## Texts -/

namespace Log

inductive Level where
  | trace
  | debug
  | info
  | warn
  | error
  deriving DecidableEq, Repr

structure Entry where
  level : Level
  text : String
  deriving DecidableEq, Repr

end Log

namespace Hex

/-- Lower-case hexadecimal with no leading zero; zero is a single digit. -/
def digits (n : Nat) : String := String.ofList (Nat.toDigits 16 n)

/-- Hexadecimal filled up with zeros on the left to `width` digits. -/
def padded (width n : Nat) : String :=
  String.ofList ((Nat.toDigits 16 n).leftpad width '0')

def byte (b : UInt8) : String := padded 2 b.toNat

end Hex

/-! ## Requests -/

/-- The register blocks reached through memory. -/
inductive Window where
  | hdmi
  | displayTop
  | alive
  deriving DecidableEq, Repr

/-- Reset lines of the display pipeline. -/
inductive ResetLine where
  | hdmi
  | hdmiPhy
  | hdmiVideo
  | hdmiSpdif
  | hdmiTmds
  deriving DecidableEq, Repr

inductive ImageStorage where
  /-- A file on the partition written as device and number. -/
  | file (partition : String)
  /-- Raw bytes from this offset of the device. -/
  | raw (offset : UInt32)
  deriving DecidableEq, Repr

structure ImageLocation where
  name : String
  storage : ImageStorage
  deriving DecidableEq, Repr

/-- What a display controller is asked to show. -/
structure DisplaySetup where
  controller : UInt8
  screen : Video.Resolution
  timing : Video.Timing
  feed : Video.Feed
  deriving DecidableEq, Repr

/-- Everything a program can ask of the board. -/
inductive Request where
  | busRead (address start : UInt8) (count : Nat)
  | busWrite (address start : UInt8) (bytes : List UInt8)
  | load (window : Window) (offset : Nat)
  | store (window : Window) (offset : Nat) (value : UInt32)
  | wait (milliseconds : Nat)
  | detectHost (milliseconds : Nat)
  | setVariable (name value : String)
  | loadImage (locations : List ImageLocation)
  | reset (line : ResetLine) (asserted : Bool)
  | showDisplay (setup : DisplaySetup)
  | log (entry : Log.Entry)
  deriving DecidableEq, Repr

/-- Bus transfers fail with the controller's error number, the environment and the image
loader with a message. Nothing else can fail. -/
@[reducible]
def Request.Answer : Request → Type
  | busRead _ _ count => Except Int (Vector UInt8 count)
  | busWrite .. => Except Int Unit
  | load .. => UInt32
  | detectHost _ => Bool
  | setVariable .. => Except String Unit
  | loadImage _ => Except String Unit
  | store .. | wait _ | reset .. | showDisplay _ | log _ => Unit

/-- A request together with the answer it got. -/
structure Event where
  request : Request
  answer : request.Answer

end Bringup
