import Bringup.Bench.ChipSession
import Bringup.Bench.LinkSession
import Bringup.Bench.Mapping
import Bringup.Bench.PowerChip
import Bringup.Bench.RegisterFile
import Bringup.Bench.World
import Bringup.Board.Context
import Bringup.Board.LateInit
import Bringup.Board.Power
import Bringup.Board.Splash
import Bringup.Charger.Calibration
import Bringup.Charger.Codes
import Bringup.Charger.Control
import Bringup.Charger.Device
import Bringup.Charger.Field
import Bringup.Charger.Operation
import Bringup.Charger.Probe
import Bringup.Charger.Report
import Bringup.Charger.Settings
import Bringup.Chip.Bus
import Bringup.Chip.Dump
import Bringup.Chip.Operation
import Bringup.Chip.Patch
import Bringup.Chip.Register
import Bringup.Chip.Status
import Bringup.Chip.Tally
import Bringup.Config.Reference
import Bringup.Config.Table
import Bringup.Fault
import Bringup.Link.Analog
import Bringup.Link.Audio
import Bringup.Link.Infoframe
import Bringup.Link.Operation
import Bringup.Link.Packet
import Bringup.Link.Raster
import Bringup.Link.Register
import Bringup.Link.Sequence
import Bringup.Link.State
import Bringup.Pmic.Operation
import Bringup.Pmic.Probe
import Bringup.Pmic.Settings
import Bringup.Program
import Bringup.Program.Run
import Bringup.Proofs.AtomicUpdates
import Bringup.Proofs.BatterySamples
import Bringup.Proofs.BootReport
import Bringup.Proofs.BringUpHistory
import Bringup.Proofs.BringUpOrder
import Bringup.Proofs.BringUpStores
import Bringup.Proofs.BringUpWords
import Bringup.Proofs.BusErrors
import Bringup.Proofs.CalibrationWords
import Bringup.Proofs.ChargerFootprint
import Bringup.Proofs.ChargerProbe
import Bringup.Proofs.ChargerSettings
import Bringup.Proofs.ChargerTarget
import Bringup.Proofs.ClosedAccess
import Bringup.Proofs.CodeWidths
import Bringup.Proofs.CurveRewrite
import Bringup.Proofs.DisplayOutcome
import Bringup.Proofs.DoubledStores
import Bringup.Proofs.EarlySync
import Bringup.Proofs.Fields
import Bringup.Proofs.Footprint
import Bringup.Proofs.FrameBufferAddress
import Bringup.Proofs.GatheredUpdates
import Bringup.Proofs.Gauge
import Bringup.Proofs.GroupDeeds
import Bringup.Proofs.GroupIsolation
import Bringup.Proofs.Interleaving
import Bringup.Proofs.LimitCells
import Bringup.Proofs.LimitRestore
import Bringup.Proofs.LinkProgress
import Bringup.Proofs.LinkSteps
import Bringup.Proofs.LinkStores
import Bringup.Proofs.LockPolling
import Bringup.Proofs.MemoryChip
import Bringup.Proofs.Milestones
import Bringup.Proofs.Moments
import Bringup.Proofs.OutOfOrder
import Bringup.Proofs.PackedSlots
import Bringup.Proofs.PacketContents
import Bringup.Proofs.PassFailures
import Bringup.Proofs.Passes
import Bringup.Proofs.PmicFootprint
import Bringup.Proofs.PmicTarget
import Bringup.Proofs.PropertyLookup
import Bringup.Proofs.RailSteps
import Bringup.Proofs.RailSwitchOn
import Bringup.Proofs.RailTarget
import Bringup.Proofs.RasterRegisters
import Bringup.Proofs.RecoveryRequest
import Bringup.Proofs.RegisterDump
import Bringup.Proofs.Revision
import Bringup.Proofs.RoundedCodes
import Bringup.Proofs.SecondPowerUp
import Bringup.Proofs.SecondProbe
import Bringup.Proofs.StoredWords
import Bringup.Proofs.SystemSwitch
import Bringup.Proofs.TallyCounts
import Bringup.Proofs.Triple
import Bringup.Proofs.Update
import Bringup.Proofs.VoltageSelectors
import Bringup.Proofs.VoltagesInRange
import Bringup.Proofs.WindowMemory
import Bringup.Proofs.WordFailures
import Bringup.Proofs.WordOverflow
import Bringup.Rail.Control
import Bringup.Rail.Layout
import Bringup.Rail.Settings
import Bringup.Request
import Bringup.Video.Feed
import Bringup.Video.Preset
import Bringup.Video.Timing
import Bringup.Window
