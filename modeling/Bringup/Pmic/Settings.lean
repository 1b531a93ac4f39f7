import Bringup.Config.Table

namespace Bringup.Pmic

/-- The node with the chip's own properties. -/
def node : String := "init-axp228"

/-- A setting that is not configured leaves its register alone, which differs from a
configured zero. -/
structure Settings where
  spreadEnable : Option Int32
  spreadRange : Option Int32
  polyPhase : Option Int32
  switchFrequency : Option Int32
  offVoltage : Option Int32
  adcControl : Option Int32
  wakeOnInterrupt : Option Int32
  vbusAcinFunction : Option Int32
  vbusAcinStatus : Option Int32
  vbusEnable : Option Int32
  resetEnable : Option Int32
  overheatOff : Option Int32
  deriving DecidableEq, Repr

def Settings.ofTable (t : Config.Table) : Settings where
  spreadEnable := t.int? node "axp228,freq_spread_en"
  spreadRange := t.int? node "axp228,spread_freq"
  polyPhase := t.int? node "axp228,poly_phase_function"
  switchFrequency := t.int? node "axp228,switch_freq"
  offVoltage := t.int? node "axp228,voff_set"
  adcControl := t.int? node "axp228,adc_control3"
  wakeOnInterrupt := t.int? node "axp228,irq_wakeup"
  vbusAcinFunction := t.int? node "axp228,vbusacin_func"
  vbusAcinStatus := t.int? node "axp228,vbusacin_status"
  vbusEnable := t.int? node "axp228,vbus_en"
  resetEnable := t.int? node "axp228,pmu_reset"
  overheatOff := t.int? node "axp228,overtmu_pwr_off"

/-- A configured value and the place in a byte that it is meant for: `top` is the largest value
the place can hold, `shift` its lowest bit. -/
structure Slot where
  value : Int32
  top : UInt8
  shift : UInt8
  deriving DecidableEq, Repr

namespace Slot

def Fits (s : Slot) : Prop := 0 ≤ s.value.toInt ∧ s.value.toInt ≤ s.top.toNat

instance (s : Slot) : Decidable s.Fits := inferInstanceAs (Decidable (_ ∧ _))

def byte? (s : Slot) : Option UInt8 :=
  if s.Fits then some (UInt8.ofNat s.value.toInt.toNat <<< s.shift) else none

end Slot

/-- All slots in one byte, unless some value does not fit its place. -/
def pack (slots : List Slot) : Option UInt8 :=
  slots.foldlM (fun byte s => s.byte?.map (byte ||| ·)) 0

end Bringup.Pmic
