import Bringup.Config.Table

namespace Bringup.Charger

/-- The node with the charger's properties. -/
def node : String := "init-charger"

/-- Open-circuit voltages of the battery over its charge, as the gauge stores them. -/
structure Curve where
  bytes : List UInt8
  fits : bytes.length ≤ 32
  deriving DecidableEq, Repr

namespace Curve

def size : Nat := 32

/-- One byte of each cell, as far as the gauge has room. -/
def ofCells (words : List UInt32) : Curve where
  bytes := (words.take size).map UInt32.toUInt8
  fits := by simp only [List.length_map, List.length_take, size]; omega

end Curve

/-- A setting that is not configured leaves its register alone, which differs from a
configured zero. -/
structure Settings where
  keyStart : Option Int32
  keyLong : Option Int32
  keyOffEnable : Option Int32
  keyOffRestart : Option Int32
  keyDelay : Option Int32
  keyOff : Option Int32
  lampFunction : Option Int32
  lampType : Option Int32
  capacityCorrection : Option Int32
  batteryRegulation : Option Int32
  batteryDetect : Option Int32
  holdVoltage : Option Int32
  holdEnable : Option Int32
  vbusLimit : Option Int32
  vbusLimitEnable : Option Int32
  chargeCurrent : Option Int32
  adapterLimit : Option Int32
  firstWarning : Option Int32
  secondWarning : Option Int32
  curve : Option Curve
  resistance : Option Int32
  capacity : Option Int32
  hostTimeout : Option Int32
  deriving DecidableEq, Repr

def Settings.ofTable (t : Config.Table) : Settings where
  keyStart := t.int? node "chg,pek_on"
  keyLong := t.int? node "chg,pek_long"
  keyOffEnable := t.int? node "chg,pek_off_en"
  keyOffRestart := t.int? node "chg,pek_off_restart"
  keyDelay := t.int? node "chg,pek_delay"
  keyOff := t.int? node "chg,pek_off"
  lampFunction := t.int? node "chg,ghcledfun"
  lampType := t.int? node "chg,chgledtype"
  capacityCorrection := t.int? node "chg,batcapcorrent"
  batteryRegulation := t.int? node "chg,batreguen"
  batteryDetect := t.int? node "chg,batdet"
  holdVoltage := t.int? node "chg,usbvolim"
  holdEnable := t.int? node "chg,usbvollimen"
  vbusLimit := t.int? node "chg,usbcurlim"
  vbusLimitEnable := t.int? node "chg,usbcurlimen"
  chargeCurrent := t.int? node "chg,charge_current"
  adapterLimit := t.int? node "chg,limit_current"
  firstWarning := t.int? node "chg,batlowlv1"
  secondWarning := t.int? node "chg,batlowlv2"
  curve :=
    (t.cells? node "chg,ocvreg" (List.replicate Curve.size 0)).map fun (count, words) =>
      Curve.ofCells (words.take count)
  resistance := t.int? node "chg,batrdc"
  capacity := t.int? node "chg,batcap"
  hostTimeout := t.int? node "chg,ubcchecktimeout"

end Bringup.Charger
