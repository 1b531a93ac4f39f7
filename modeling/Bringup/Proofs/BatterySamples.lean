import Bringup.Charger.Control
import Bringup.Proofs.MemoryChip
import Mathlib.Algebra.Group.Action.Defs
import Mathlib.Algebra.Order.BigOperators.Group.List
import Mathlib.Algebra.Order.Ring.Nat

/-! The battery voltage is the mean of a few samples, each read from two registers. What they show
may change from read to read, and any of the reads may fail. -/
namespace Bringup.Charger

open Chip

/-! ## Measured words -/

namespace Measurement

theorem toNat_join (high low : UInt8) :
    (join high low).toNat = high.toNat * 16 + low.toNat % 16 := by
  have hhigh := high.toNat_lt
  have hlow : low.toNat % 2 ^ 4 < 2 ^ 4 := Nat.mod_lt _ (by decide)
  have four : low.toNat &&& 15 = low.toNat % 2 ^ 4 := Nat.and_two_pow_sub_one_eq_mod _ 4
  rw [join, UInt16.toNat_or, UInt16.toNat_shiftLeft, UInt8.toNat_toUInt16, UInt8.toNat_toUInt16,
    UInt8.toNat_and]
  change high.toNat <<< 4 % 2 ^ 16 ||| low.toNat &&& 15 = _
  rw [four, Nat.mod_eq_of_lt (by rw [Nat.shiftLeft_eq]; omega),
    ← Nat.shiftLeft_add_eq_or_of_lt hlow, Nat.shiftLeft_eq]
  rfl

theorem batteryMillivolts_le (high low : UInt8) : batteryMillivolts (join high low) ≤ 4504 := by
  have bound := high.toNat_lt
  rw [batteryMillivolts, toNat_join]
  omega

end Measurement

/-- The two bytes of a sample. Of the second only four bits count. -/
structure Sample where
  high : UInt8
  low : UInt8
  deriving DecidableEq, Repr

namespace Sample

def raw (s : Sample) : Nat := s.high.toNat * 16 + s.low.toNat % 16

def millivolts (s : Sample) : Nat := s.raw * 1100 / 1000

/-- The mean of five samples in whole millivolts, given in microvolts. -/
def mean (samples : List Sample) : Nat := 1000 * ((samples.map millivolts).sum / 5)

/-- Wait, then read one register and the other. -/
def events (s : Sample) : List Event := [
  ⟨.wait 1, ()⟩,
  ⟨.busRead 0x34 0x78 1, .ok #v[s.high]⟩,
  ⟨.busRead 0x34 0x79 1, .ok #v[s.low]⟩]

theorem raw_lt (s : Sample) : s.raw < 4096 := by
  have bound := s.high.toNat_lt
  unfold raw
  omega

theorem measured (s : Sample) :
    Measurement.batteryMillivolts (Measurement.join s.high s.low) = s.millivolts := by
  rw [Measurement.batteryMillivolts, Measurement.toNat_join]
  rfl

theorem millivolts_le (s : Sample) : s.millivolts ≤ 4504 := by
  rw [← s.measured]
  exact Measurement.batteryMillivolts_le _ _

end Sample

/-! ## Registers that change -/

/-- What each register is going to show, read by read, or with which code a read of it fails. -/
abbrev Feed := UInt8 → Nat → Except Int UInt8

namespace Feed

/-- What is left once the register has been read. -/
def next (feed : Feed) (r : UInt8) : Feed := fun r' n => feed r' (if r' = r then n + 1 else n)

/-- A bus on which only reads of one register get anywhere. -/
def board : Program.Board Feed
  | feed, .busRead _ start count => ((feed start 0).map (Vector.replicate count), feed.next start)
  | feed, .busWrite .. => (.error 0, feed)
  | feed, .load .. => (0, feed)
  | feed, .store .. => ((), feed)
  | feed, .detectHost _ => (true, feed)
  | feed, .setVariable .. => (.ok (), feed)
  | feed, .loadImage _ => (.ok (), feed)
  | feed, .wait _ => ((), feed)
  | feed, .reset .. => ((), feed)
  | feed, .showDisplay _ => ((), feed)
  | feed, .log _ => ((), feed)

/-- What is logged when a read of the register fails. -/
def failure (r : UInt8) : Event :=
  ⟨.log ⟨.error, s!"AXP228: read error from dev 0x{Hex.byte 0x34} reg 0x{Hex.byte r}"⟩, ()⟩

section
variable {feed : Feed} {r byte : UInt8} {code : Int}

/-- A read takes what is next in the feed of the register. -/
theorem run_readByte_next (feed : Feed) (r : UInt8) :
    (device.readByte r).run.run board feed =
      match feed r 0 with
      | .ok byte => ⟨.ok (.ok byte), [⟨.busRead 0x34 r 1, .ok #v[byte]⟩], feed.next r⟩
      | .error code => ⟨.ok (.error (.bus 0x34 r .read code)),
          [⟨.busRead 0x34 r 1, .error code⟩, failure r], feed.next r⟩ := by
  have shown : board feed (.busRead device.address r 1) =
      ((feed r 0).map (Vector.replicate 1), feed.next r) := rfl
  rw [Device.run_readByte_on, shown]
  cases feed r 0 <;> rfl

theorem run_readByte (h : feed r 0 = .ok byte) :
    (device.readByte r).run.run board feed =
      ⟨.ok (.ok byte), [⟨.busRead 0x34 r 1, .ok #v[byte]⟩], feed.next r⟩ := by
  rw [run_readByte_next, h]

theorem run_readByte_fails (h : feed r 0 = .error code) :
    (device.readByte r).run.run board feed =
      ⟨.ok (.error (.bus 0x34 r .read code)),
        [⟨.busRead 0x34 r 1, .error code⟩, failure r], feed.next r⟩ := by
  rw [run_readByte_next, h]

end

/-- The feed starts with these samples. -/
def Gives (feed : Feed) (samples : List Sample) : Prop :=
  ∀ (n : Nat) (s : Sample), samples[n]? = some s →
    feed 0x78 n = .ok s.high ∧ feed 0x79 n = .ok s.low

/-- What is left once a sample has been taken. -/
def afterSample (feed : Feed) : Feed :=
  (feed.next Register.batteryVoltageHigh).next (Register.batteryVoltageHigh + 1)

theorem Gives.cons {feed : Feed} {s : Sample} {samples : List Sample}
    (high : feed 0x78 0 = .ok s.high) (low : feed 0x79 0 = .ok s.low)
    (others : feed.afterSample.Gives samples) : feed.Gives (s :: samples)
  | 0, _, rfl => ⟨high, low⟩
  | n + 1, s', h => others n s' h

end Feed

open Feed (board)

/-- How taking so many samples ends: all of them are taken, or a read fails, be it of the one
register or of the other. -/
inductive Sampled (feed : Feed) (count : Nat) {α : Type} (value : List Sample → α)
    (r : Program.Run Feed (Except ChipError α)) : Prop where
  | all (samples : List Sample) (taken : samples.length = count) (given : feed.Gives samples)
      (outcome : r.outcome = .ok (.ok (value samples)))
      (events : r.events = samples.flatMap Sample.events)
  | high (samples : List Sample) (fewer : samples.length < count) (given : feed.Gives samples)
      (code : Int) (fails : feed 0x78 samples.length = .error code)
      (outcome : r.outcome = .ok (.error (.bus 0x34 0x78 .read code)))
      (events : r.events = samples.flatMap Sample.events ++
        [⟨.wait 1, ()⟩, ⟨.busRead 0x34 0x78 1, .error code⟩, Feed.failure 0x78])
  | low (samples : List Sample) (fewer : samples.length < count) (given : feed.Gives samples)
      (byte : UInt8) (shows : feed 0x78 samples.length = .ok byte)
      (code : Int) (fails : feed 0x79 samples.length = .error code)
      (outcome : r.outcome = .ok (.error (.bus 0x34 0x79 .read code)))
      (events : r.events = samples.flatMap Sample.events ++
        [⟨.wait 1, ()⟩, ⟨.busRead 0x34 0x78 1, .ok #v[byte]⟩,
          ⟨.busRead 0x34 0x79 1, .error code⟩, Feed.failure 0x79])

/-! ## One sample, and several -/

section
variable {feed : Feed} {byte : UInt8} {code : Int}

/-- The second byte is read only if the first was. -/
theorem run_measure (high : feed 0x78 0 = .ok byte) {low : Except ChipError UInt8}
    {events : List Event} {feed' : Feed}
    (h : (device.readByte (Register.batteryVoltageHigh + 1)).run.run board
      (feed.next Register.batteryVoltageHigh) = ⟨.ok low, events, feed'⟩) :
    (measure Register.batteryVoltageHigh).run.run board feed =
      ⟨.ok (low.map (Measurement.join byte)), ⟨.busRead 0x34 0x78 1, .ok #v[byte]⟩ :: events,
        feed'⟩ := by
  have first := Feed.run_readByte (r := Register.batteryVoltageHigh) high
  rw [measure, Program.run_bind_except, first, Program.Run.andThen_ok]
  dsimp only
  rw [Program.run_bind_except, h, Program.Run.andThen_ok]
  cases low <;> simp [Except.map] <;> rfl

/-- A sample is measured after a wait. -/
theorem run_sampleBattery {word : Except ChipError UInt16} {events : List Event} {feed' : Feed}
    (h : (measure Register.batteryVoltageHigh).run.run board feed = ⟨.ok word, events, feed'⟩) :
    sampleBattery.run.run board feed =
      ⟨.ok (word.map Measurement.batteryMillivolts), ⟨.wait 1, ()⟩ :: events, feed'⟩ := by
  have waited : (liftM (Program.wait sampleInterval) : Access Unit).run.run board feed =
      ⟨.ok (.ok ()), [⟨.wait 1, ()⟩], feed⟩ := rfl
  rw [sampleBattery, Program.run_bind_except, waited, Program.Run.andThen_ok]
  dsimp only
  rw [Program.run_bind_except, h, Program.Run.andThen_ok]
  cases word <;> simp [Except.map]

theorem run_sample (s : Sample) (high : feed 0x78 0 = .ok s.high) (low : feed 0x79 0 = .ok s.low) :
    sampleBattery.run.run board feed = ⟨.ok (.ok s.millivolts), s.events, feed.afterSample⟩ := by
  rw [run_sampleBattery (run_measure high (Feed.run_readByte low)), ← s.measured]
  rfl

theorem run_sample_high (fails : feed 0x78 0 = .error code) :
    sampleBattery.run.run board feed = ⟨.ok (.error (.bus 0x34 0x78 .read code)),
      [⟨.wait 1, ()⟩, ⟨.busRead 0x34 0x78 1, .error code⟩, Feed.failure 0x78],
      feed.next Register.batteryVoltageHigh⟩ := by
  have first := Feed.run_readByte_fails (r := Register.batteryVoltageHigh) fails
  have measured : (measure Register.batteryVoltageHigh).run.run board feed =
      ⟨.ok (.error (.bus 0x34 0x78 .read code)), [⟨.busRead 0x34 0x78 1, .error code⟩,
        Feed.failure 0x78], feed.next Register.batteryVoltageHigh⟩ := by
    rw [measure, Program.run_bind_except, first, Program.Run.andThen_ok]
    rfl
  exact run_sampleBattery measured

theorem run_sample_low (shows : feed 0x78 0 = .ok byte) (fails : feed 0x79 0 = .error code) :
    sampleBattery.run.run board feed = ⟨.ok (.error (.bus 0x34 0x79 .read code)),
      [⟨.wait 1, ()⟩, ⟨.busRead 0x34 0x78 1, .ok #v[byte]⟩, ⟨.busRead 0x34 0x79 1, .error code⟩,
        Feed.failure 0x79], feed.afterSample⟩ :=
  run_sampleBattery (run_measure shows (Feed.run_readByte_fails fails))

namespace Sampled

variable {α β : Type} {count : Nat} {r : Program.Run Feed (Except ChipError α)}
  {value : List Sample → α}

theorem result (h : Sampled feed count value r) (g : α → β) :
    Sampled feed count (fun samples => g (value samples))
      ⟨r.outcome.map (·.map g), r.events, r.board⟩ := by
  cases h with
  | all samples taken given outcome events =>
    exact .all samples taken given (by rw [outcome]; rfl) events
  | high samples fewer given code fails outcome events =>
    exact .high samples fewer given code fails (by rw [outcome]; rfl) events
  | low samples fewer given byte shows code fails outcome events =>
    exact .low samples fewer given byte shows code fails (by rw [outcome]; rfl) events

/-- One more sample, taken before the others. -/
theorem cons (s : Sample) (high : feed 0x78 0 = .ok s.high) (low : feed 0x79 0 = .ok s.low)
    (h : Sampled feed.afterSample count (fun others => value (s :: others)) r) :
    Sampled feed (count + 1) value ⟨r.outcome, s.events ++ r.events, r.board⟩ := by
  cases h with
  | all samples taken given outcome events =>
    exact .all (s :: samples) (congrArg (· + 1) taken) (given.cons high low) outcome
      (by rw [events]; rfl)
  | high samples fewer given code fails outcome events =>
    exact .high (s :: samples) (by simpa using fewer) (given.cons high low) code fails outcome
      (by rw [events, List.flatMap_cons, List.append_assoc])
  | low samples fewer given byte shows code fails outcome events =>
    exact .low (s :: samples) (by simpa using fewer) (given.cons high low) byte shows code fails
      outcome (by rw [events, List.flatMap_cons, List.append_assoc])

/-- All that goes over the bus is reads. -/
theorem writes (h : Sampled feed count value r) : r.writes = [] := by
  have samples (samples : List Sample) :
      (samples.flatMap Sample.events).filterMap Event.write? = [] := by
    induction samples with
    | nil => rfl
    | cons s samples ih => exact ih
  cases h with
  | all taken _ _ _ events => rw [Program.Run.writes, events, samples]
  | high taken _ _ _ _ _ events | low taken _ _ _ _ _ _ _ events =>
    rw [Program.Run.writes, events, List.filterMap_append, samples]
    rfl

end Sampled

theorem mapM_sampled {ι : Type} (rounds : List ι) (feed : Feed) :
    Sampled feed rounds.length (·.map Sample.millivolts)
      ((rounds.mapM fun _ => sampleBattery).run.run board feed) := by
  induction rounds generalizing feed with
  | nil => exact .all [] rfl nofun rfl rfl
  | cons _ rounds ih =>
    rw [List.mapM_cons, Program.run_bind_except]
    cases high : feed 0x78 0 with
    | error code =>
      rw [run_sample_high high, Program.Run.andThen_ok]
      exact .high [] (Nat.zero_lt_succ _) nofun code high rfl rfl
    | ok byte =>
      cases low : feed 0x79 0 with
      | error code =>
        rw [run_sample_low high low, Program.Run.andThen_ok]
        exact .low [] (Nat.zero_lt_succ _) nofun byte high code low rfl rfl
      | ok byte' =>
        let s : Sample := ⟨byte, byte'⟩
        rw [run_sample s high low, Program.Run.andThen_ok]
        dsimp only
        rw [bind_pure_comp, ExceptT.run_map, Program.run_map]
        exact ((ih feed.afterSample).result (s.millivolts :: ·)).cons s high low

end

/-! ## The mean -/

section
variable {samples : List Sample}

theorem sum_between {least most : Nat}
    (h : ∀ s ∈ samples, least ≤ s.millivolts ∧ s.millivolts ≤ most) :
    samples.length * least ≤ (samples.map Sample.millivolts).sum ∧
    (samples.map Sample.millivolts).sum ≤ samples.length * most := by
  have lower := List.card_nsmul_le_sum (samples.map Sample.millivolts) least
    (List.forall_mem_map.mpr fun s hs => (h s hs).1)
  have upper := List.sum_le_card_nsmul (samples.map Sample.millivolts) most
    (List.forall_mem_map.mpr fun s hs => (h s hs).2)
  rw [List.length_map, smul_eq_mul] at lower upper
  exact ⟨lower, upper⟩

/-- Rounding down twice does not leave the range of the samples. -/
theorem mean_between {least most : Nat} (five : samples.length = 5)
    (h : ∀ s ∈ samples, least ≤ s.millivolts ∧ s.millivolts ≤ most) :
    1000 * least ≤ Sample.mean samples ∧ Sample.mean samples ≤ 1000 * most := by
  have between := sum_between h
  rw [five] at between
  unfold Sample.mean
  omega

theorem sum_take_le (five : samples.length = 5) (n : Nat) :
    ((samples.take n).map Sample.millivolts).sum ≤ 5 * 4504 := by
  have between : _ ∧ ((samples.take n).map Sample.millivolts).sum ≤ _ :=
    sum_between fun s _ => ⟨Nat.zero_le _, s.millivolts_le⟩
  have few : (samples.take n).length ≤ 5 := five ▸ List.length_take_le' n samples
  exact between.2.trans (Nat.mul_le_mul_right _ few)

end

def batteryRun (feed : Feed) : Program.Run Feed (Except ChipError Nat) :=
  batteryMicrovolts.run.run board feed

theorem batteryRun_sampled (feed : Feed) : Sampled feed 5 Sample.mean (batteryRun feed) := by
  have mean (samples : List Sample) : (samples.map Sample.millivolts).foldl (· + ·) 0 /
      sampleCount * 1000 = Sample.mean samples := by
    rw [Sample.mean, Nat.mul_comm, List.sum_eq_foldl]
    rfl
  have taken := (mapM_sampled (List.range sampleCount) feed).result
    fun mv => mv.foldl (· + ·) 0 / sampleCount * 1000
  simp only [mean] at taken
  rw [batteryRun, batteryMicrovolts, bind_pure_comp, ExceptT.run_map, Program.run_map]
  exact taken

/-- Whatever the two registers show, read by read, the answer is the mean of five samples, or the
first failure of one of the ten reads, after which the bus is left alone. Nothing is ever written,
nothing that is computed on the way is too long for 32 bits, and the mean lies between the least
sample and the greatest. -/
theorem battery_voltage_averaged (feed : Feed) :
    Sampled feed 5 Sample.mean (batteryRun feed) ∧ (batteryRun feed).writes = [] ∧
    ∀ samples : List Sample, samples.length = 5 →
      (∀ s ∈ samples, s.raw * 1100 < 2 ^ 32) ∧
      (∀ n, ((samples.take n).map Sample.millivolts).sum < 2 ^ 32) ∧
      Sample.mean samples < 2 ^ 32 ∧
      ∀ least most, (∀ s ∈ samples, least ≤ s.millivolts ∧ s.millivolts ≤ most) →
        1000 * least ≤ Sample.mean samples ∧ Sample.mean samples ≤ 1000 * most := by
  refine ⟨batteryRun_sampled feed, (batteryRun_sampled feed).writes, fun samples five => ?_⟩
  refine ⟨fun s _ => ?_, fun n => ?_, ?_, fun least most => mean_between five⟩
  · have bound := s.raw_lt
    omega
  · exact (sum_take_le five n).trans_lt (by decide)
  · have bound : 1000 * 0 ≤ _ ∧ Sample.mean samples ≤ _ :=
      mean_between five fun s _ => ⟨Nat.zero_le _, s.millivolts_le⟩
    omega

/-- A voltage that rises from sample to sample, and noise in the bits that do not count. -/
def rising : Feed := fun r n => .ok (if r = 0x78 then 0xD0 + UInt8.ofNat n else 0xF7)

def risingSamples : List Sample := (List.range 5).map fun n => ⟨0xD0 + UInt8.ofNat n, 0xF7⟩

theorem rising_voltage_averaged :
    (batteryRun rising).outcome = .ok (.ok 3703000) ∧ risingSamples.length = 5 ∧
    1000 * 3668 ≤ Sample.mean risingSamples ∧ Sample.mean risingSamples ≤ 1000 * 3738 := by
  have between := (battery_voltage_averaged rising).2.2 risingSamples rfl
  exact ⟨rfl, rfl, between.2.2.2 3668 3738 (by decide)⟩

/-- A read that fails in the third sample. -/
example :
    let cut : Feed := fun r n => if r = 0x79 ∧ n = 2 then .error 5 else rising r n
    (batteryRun cut).outcome = .ok (.error (.bus 0x34 0x79 .read 5)) ∧
      ((batteryRun cut).events.filter Event.isTransfer).length = 6 :=
  ⟨rfl, rfl⟩

end Bringup.Charger
