import Bringup.Board.Context
import Bringup.Program

namespace Bringup.Board

inductive SplashError where
  | load (message : String)
  | environment (message : String)
  deriving DecidableEq, Repr

/-- Where splash images may lie, in the order they are tried. -/
def splashLocations : List ImageLocation :=
  [⟨"mmc_fs", .file "0:1"⟩, ⟨"mmc", .raw 0x2E4200⟩]

/-- An address as the environment takes it. -/
def addressText (address : UInt64) : String := "0x" ++ Hex.digits address.toNat

/-- Load the splash image, then publish where it was put. -/
def prepareSplash (c : Context) : ExceptT SplashError Program Unit := do
  match ← Program.loadImage splashLocations with
  | .error message => throw (.load message)
  | .ok () =>
      match ← Program.setVariable "fb_addr" (addressText c.frameBuffer) with
      | .error message => throw (.environment message)
      | .ok () => return ()

end Bringup.Board
