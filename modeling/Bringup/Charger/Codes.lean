/-! How the charger's registers hold what is measured, set and chosen. Values out of range are taken
to the nearest code, but for hold voltages, which have no code then. -/
namespace Bringup.Charger

/-! ## Charge currents -/

namespace Current

def least : Int := 300000

def greatest : Int := 2550000

def step : Int := 150000

def mask : UInt8 := 0x0F

/-- Four-bit code of a current in microamperes. Outside the range the nearest end is taken. -/
def encode (ua : Int) : UInt8 :=
  if ua < least then 0
  else if greatest < ua then 0xF
  else UInt8.ofNat ((ua - 200001).tdiv step).toNat &&& mask

/-- Microamperes of the code in the low half of a byte. -/
def decode (byte : UInt8) : Nat := ((byte &&& mask).toNat * 150 + 300) * 1000

end Current

/-! ## Limits of VBUS -/

/-- How much current may be drawn from VBUS. -/
inductive VbusLimit where
  | half
  | full
  | unlimited
  deriving DecidableEq, Repr

namespace VbusLimit

def mask : UInt8 := 0x03

def code : VbusLimit → UInt8
  | half => 0x01
  | full => 0x00
  | unlimited => 0x03

/-- Both codes with the high bit lift the limit. -/
def ofCode (byte : UInt8) : VbusLimit :=
  if byte &&& mask = full.code then full
  else if byte &&& mask = half.code then half
  else unlimited

/-- The limit in microamperes, zero standing for no limit. -/
def microamps : VbusLimit → Nat
  | half => 500000
  | full => 900000
  | unlimited => 0

/-- The limit to choose for a request in microamperes. -/
def ofMicroamps (ua : Nat) : VbusLimit :=
  if ua < 900000 then half
  else if ua < 1500000 then full
  else unlimited

end VbusLimit

/-- Place of the voltage below which VBUS is not pulled, in steps of 100 mV from 4 V. Other
voltages have no code. -/
def holdBits (mv : Int) : Option UInt8 :=
  if 4000 ≤ mv ∧ mv ≤ 4700 then some (UInt8.ofNat ((mv - 4000).tdiv 100).toNat <<< 3)
  else none

/-! ## Press times of the power key

The register can hold only a few. -/

namespace PowerKey

/-- Press that switches the board on, in the top two bits. -/
def startBits (ms : Int) : UInt8 :=
  if ms < 1000 then 0x00
  else if ms < 2000 then 0x40
  else if ms < 3000 then 0x80
  else 0xC0

/-- How far a time lies above the least one, once it is taken to the nearest end. -/
def above (least greatest ms : Int) : Int := min (max ms least) greatest - least

/-- Press that counts as long, in bits 5 and 4. -/
def longBits (ms : Int) : UInt8 := UInt8.ofNat ((above 1000 2500 ms).tdiv 500).toNat <<< 4

/-- Press that switches the board off, in the low two bits. -/
def offBits (ms : Int) : UInt8 := UInt8.ofNat ((above 4000 10000 ms).tdiv 2000).toNat

/-- Steps of a delay that come after the first one. -/
def furtherSteps (ms : Int) : Int := ms.tdiv 8 - 1

/-- Debounce delay, in the low two bits. -/
def delayBits (ms : Int) : UInt8 := UInt8.ofNat (min (max (furtherSteps ms) 0) 3).toNat

end PowerKey

/-! ## Measurements -/

namespace Measurement

/-- A result is split: eight high bits, then four low bits in the low half of the next byte. -/
def join (high low : UInt8) : UInt16 := (high.toUInt16 <<< 4) ||| (low &&& 0x0F).toUInt16

def batteryMillivolts (raw : UInt16) : Nat := raw.toNat * 1100 / 1000

def openMillivolts (raw : UInt16) : Nat := raw.toNat * 1100 / 1000

def inputMillivolts (raw : UInt16) : Nat := raw.toNat * 1700 / 1000

def dischargeMilliamps (raw : UInt16) : Nat := raw.toNat

def chargeMilliamps (raw : UInt16) : Nat := raw.toNat

def adapterMilliamps (raw : UInt16) : Nat := raw.toNat * 625 / 1000

def vbusMilliamps (raw : UInt16) : Nat := raw.toNat * 375 / 1000

end Measurement

end Bringup.Charger
