/-! Register addresses of the power chip. -/
namespace Bringup.Chip.Register

def inputStatus : UInt8 := 0x00
def chargeStatus : UInt8 := 0x01
def chipId : UInt8 := 0x03

def railEnable1 : UInt8 := 0x10
def railEnable2 : UInt8 := 0x12
def railEnable3 : UInt8 := 0x13

def dldo1Voltage : UInt8 := 0x15
def dldo2Voltage : UInt8 := 0x16
def dldo3Voltage : UInt8 := 0x17
def dldo4Voltage : UInt8 := 0x18
def eldo1Voltage : UInt8 := 0x19
def eldo2Voltage : UInt8 := 0x1A
def eldo3Voltage : UInt8 := 0x1B
def dc5ldoVoltage : UInt8 := 0x1C
def dcdc1Voltage : UInt8 := 0x21
def dcdc2Voltage : UInt8 := 0x22
def dcdc3Voltage : UInt8 := 0x23
def dcdc4Voltage : UInt8 := 0x24
def dcdc5Voltage : UInt8 := 0x25
def aldo1Voltage : UInt8 := 0x28
def aldo2Voltage : UInt8 := 0x29
def aldo3Voltage : UInt8 := 0x2A

def vbus : UInt8 := 0x30
def powerOff : UInt8 := 0x31
/-- Debounce of the power key, the charge lamp and battery detection share this register. -/
def offControl : UInt8 := 0x32
def charge1 : UInt8 := 0x33
def charge2 : UInt8 := 0x34
def charge3 : UInt8 := 0x35
def powerKey : UInt8 := 0x36
def converterFrequency : UInt8 := 0x37

def interruptEnable1 : UInt8 := 0x40
def interruptEnable2 : UInt8 := 0x41
def interruptEnable3 : UInt8 := 0x42
def interruptEnable4 : UInt8 := 0x43
def interruptEnable5 : UInt8 := 0x44
def chargeLamp : UInt8 := 0x45
def interruptStatus1 : UInt8 := 0x48
def interruptStatus2 : UInt8 := 0x49
def interruptStatus3 : UInt8 := 0x4A
def interruptStatus4 : UInt8 := 0x4B
def interruptStatus5 : UInt8 := 0x4C

def batteryVoltageHigh : UInt8 := 0x78
def chargeCurrentHigh : UInt8 := 0x7A
def dischargeCurrentHigh : UInt8 := 0x7C
def converterMode : UInt8 := 0x80
def adcControl : UInt8 := 0x84
def overheat : UInt8 := 0x8F

def coulombCounter : UInt8 := 0xB8
def gauge : UInt8 := 0xB9
def resistanceHigh : UInt8 := 0xBA
def resistanceLow : UInt8 := 0xBB
def openVoltageHigh : UInt8 := 0xBC
def curve : UInt8 := 0xC0
def capacityHigh : UInt8 := 0xE0
def capacityLow : UInt8 := 0xE1
def warningLevel : UInt8 := 0xE6

/-- The highest register address. -/
def last : Nat := 0xFF

end Bringup.Chip.Register
