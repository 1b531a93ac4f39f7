import Bringup.Link.Register
import Bringup.Window

namespace Bringup.Link.Analog

/-- The analogue part settles only if every write to it comes twice in a row. -/
def doubled (writes : List WordWrite) : List WordWrite := writes.flatMap fun x => [x, x]

/-- Written to the mode register when the coefficients are complete. -/
def modeSetDone : UInt32 := 0x80

def switchOff : List WordWrite := [⟨Register.analogMode, 0⟩]

/-- Coefficients go to consecutive words. -/
def coefficientWrites (p : Video.Preset) : List WordWrite :=
  p.coefficients.zipIdx.map fun (byte, i) => ⟨Register.analogFirst + 4 * i, byte.toUInt32⟩

def loadWrites (p : Video.Preset) : List WordWrite :=
  [⟨Register.analogMode, 0⟩, ⟨Register.analogFirst, 0⟩, ⟨Register.analogPower, 0x80⟩] ++
  coefficientWrites p ++
  [⟨Register.analogMode, modeSetDone⟩, ⟨Register.analogMode, modeSetDone⟩]

def store (writes : List WordWrite) : Program Unit := Window.hdmi.storeAll (doubled writes)

/-- Bit of the status register that says the clock is locked. -/
def lockBit : UInt32 := 0x01

/-- How often the lock is asked for. -/
def pollBudget : Nat := 500

/-- Milliseconds after each look that found no lock. -/
def pollInterval : Nat := 10

/-- Look for the lock up to so many times, waiting after each look in vain. -/
def awaitLock : Nat → Program Bool
  | 0 => return false
  | budget + 1 => do
      let status ← Window.hdmi.load Register.analogStatus
      if status &&& lockBit ≠ 0 then
        return true
      else
        Program.wait pollInterval
        awaitLock budget

end Bringup.Link.Analog
