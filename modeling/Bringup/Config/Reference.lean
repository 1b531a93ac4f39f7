import Bringup.Config.Table

namespace Bringup.Config

/-- A node all of whose properties are integers. -/
def Node.ofInts (path : String) (properties : List (String × Int32)) : Node :=
  ⟨path, properties.map fun p => ⟨p.1, .int p.2⟩⟩

/-- Description of the reference drone board. -/
def reference : Table := ⟨[
  .ofInts "init-axp228" [
    ("axp228,freq_spread_en", 1),
    ("axp228,spread_freq", 0),
    ("axp228,poly_phase_function", 0),
    ("axp228,switch_freq", 8),
    ("axp228,voff_set", 3),
    ("axp228,adc_control3", 0),
    ("axp228,irq_wakeup", 0),
    ("axp228,vbusacin_func", 0),
    ("axp228,vbusacin_status", 0),
    ("axp228,vbus_en", 1),
    ("axp228,pmu_reset", 0),
    ("axp228,overtmu_pwr_off", 1)],
  .ofInts "init-charger" [
    ("chg,usbvolim", 4700),
    ("chg,usbvollimen", 1),
    ("chg,usbcurlim", 500),
    ("chg,usbcurlimen", 1),
    ("chg,charge_current", 1500000),
    ("chg,limit_current", 1500000),
    ("chg,batlowlv1", 15),
    ("chg,batlowlv2", 0),
    ("chg,ghcledfun", 1),
    ("chg,chgledtype", 0),
    ("chg,batcapcorrent", 1),
    ("chg,batreguen", 0),
    ("chg,batdet", 1)],
  .ofInts "voltage-regulators" [],
  .ofInts "voltage-regulators/dcdc1" [("axp228,vol", 3300), ("axp228,on", 1), ("axp228,work_mode", 0)],
  .ofInts "voltage-regulators/dcdc2" [("axp228,vol", 1100), ("axp228,on", 1), ("axp228,work_mode", 0)],
  .ofInts "voltage-regulators/dcdc3" [("axp228,vol", 1100), ("axp228,on", 1), ("axp228,work_mode", 0)],
  .ofInts "voltage-regulators/dcdc4" [("axp228,vol", 1500), ("axp228,on", 1), ("axp228,work_mode", 0)],
  .ofInts "voltage-regulators/dcdc5" [("axp228,vol", 1500), ("axp228,on", 1), ("axp228,work_mode", 0)],
  .ofInts "voltage-regulators/aldo1" [("axp228,vol", 3300), ("axp228,on", 1)],
  .ofInts "voltage-regulators/aldo2" [("axp228,vol", 1800), ("axp228,on", 1)],
  .ofInts "voltage-regulators/aldo3" [("axp228,vol", 3300), ("axp228,on", 0)],
  .ofInts "voltage-regulators/dldo1" [("axp228,vol", 3300), ("axp228,on", 1)],
  .ofInts "voltage-regulators/dldo2" [("axp228,vol", 1800), ("axp228,on", 1)],
  .ofInts "voltage-regulators/eldo1" [("axp228,vol", 1800), ("axp228,on", 0)],
  .ofInts "voltage-regulators/dc5ldo" [("axp228,vol", 1200), ("axp228,on", 1)]]⟩

end Bringup.Config
