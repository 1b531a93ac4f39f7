import Bringup.Charger.Codes
import Bringup.Chip.Bus
import Bringup.Chip.Register

/-! The fields of the power chip that belong to the charger. -/
namespace Bringup.Charger.Field

open Chip

def keyStart : Chip.Field := ⟨Register.powerKey, 0xC0⟩
def keyLong : Chip.Field := ⟨Register.powerKey, 0x30⟩
def keyOffEnable : Chip.Field := ⟨Register.powerKey, 0x08⟩
def keyOffRestart : Chip.Field := ⟨Register.powerKey, 0x04⟩
def keyOff : Chip.Field := ⟨Register.powerKey, 0x03⟩

def keyDelay : Chip.Field := ⟨Register.offControl, 0x03⟩
def lampFunction : Chip.Field := ⟨Register.offControl, 0x08⟩
def batteryDetect : Chip.Field := ⟨Register.offControl, 0x40⟩

def lampType : Chip.Field := ⟨Register.chargeLamp, 0x10⟩
def capacityCorrection : Chip.Field := ⟨Register.coulombCounter, 0x20⟩
def batteryRegulation : Chip.Field := ⟨Register.charge2, 0x20⟩

def holdEnable : Chip.Field := ⟨Register.vbus, 0x40⟩
def holdVoltage : Chip.Field := ⟨Register.vbus, 0x38⟩
def vbusLimit : Chip.Field := ⟨Register.vbus, VbusLimit.mask⟩

def adapterLimit : Chip.Field := ⟨Register.charge3, Current.mask⟩
def chargeEnable : Chip.Field := ⟨Register.charge1, 0x80⟩
def chargeCurrent : Chip.Field := ⟨Register.charge1, Current.mask⟩

def warningLevel : Chip.Field := ⟨Register.warningLevel, 0xFF⟩

/-- How much charge is left, in percent. -/
def percent : Chip.Field := ⟨Register.gauge, 0x7F⟩

end Bringup.Charger.Field
