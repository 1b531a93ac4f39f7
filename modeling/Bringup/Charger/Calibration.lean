import Bringup.Fault

/-! Words by which the fuel gauge is calibrated. -/
namespace Bringup.Charger

/-- Two bytes of a word, as they are written. -/
structure BytePair where
  high : UInt8
  low : UInt8
  deriving DecidableEq, Repr

namespace Resistance

/-- Set by the gauge itself once it has measured the resistance. -/
def calibrated : UInt8 := 0x40

/-- Lets the gauge take over a written resistance. -/
def writeEnable : UInt8 := 0x80

def highMask : UInt8 := 0x1F

/-- Code of an internal resistance in milliohms. -/
def encode (mohm : Int) : Checked UInt16 := do
  let scaled ← Checked.signedWord .mulOverflow (mohm * 10000)
  let rounded ← Checked.signedWord .addOverflow (scaled + 5371)
  return UInt16.ofInt (rounded.tdiv 10742)

/-- Thirteen bits of the code, and the write enable. -/
def bytes (code : UInt16) : BytePair :=
  ⟨((code >>> 8).toUInt8 &&& highMask) ||| writeEnable, code.toUInt8⟩

end Resistance

namespace Capacity

/-- Set while a full capacity is on record. -/
def valid : UInt8 := 0x80

/-- Full scale of the coulomb counter for a capacity in milliampere-hours. -/
def encode (mah : Int) : Checked UInt16 := do
  let scaled ← Checked.signedWord .mulOverflow (mah * 1000)
  return UInt16.ofInt (scaled.tdiv 1456)

def bytes (code : UInt16) : BytePair := ⟨(code >>> 8).toUInt8 ||| valid, code.toUInt8⟩

end Capacity

/-- Both battery warnings in one byte: the first from 5 to 20 percent, the second from 0 to 15
percent. -/
def warningByte (first second : Int) : Option UInt8 :=
  if (5 ≤ first ∧ first ≤ 20) ∧ (0 ≤ second ∧ second ≤ 15) then
    some (UInt8.ofNat ((first - 5) * 16 + second).toNat)
  else none

end Bringup.Charger
