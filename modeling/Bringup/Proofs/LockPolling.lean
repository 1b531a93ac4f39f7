import Bringup.Link.Sequence
import Bringup.Proofs.WindowMemory

/-! Polling for the lock of the clock. Looks and pauses take turns until a look finds the clock
locked, or until the budget is used up and the analogue part is switched off. -/
namespace Bringup

/-- The windows once the lock status has shown so many values more. -/
def WindowMemory.later (m : WindowMemory) (looks : Nat) : WindowMemory :=
  { m with statuses := fun n => m.statuses (n + looks) }

/-- The windows after stores to them. -/
def WindowMemory.overwritten (m : WindowMemory) (stores : List WordStore) : WindowMemory :=
  { m with words := place m.words stores }

namespace Link

open WindowMemory (board)

/-- A look at the lock status, and what it showed. -/
def lookEvent (status : UInt32) : Event := ⟨.load .hdmi Register.analogStatus, status⟩

def pauseEvent : Event := ⟨.wait 10, ()⟩

/-- The first so many looks, each with a pause after it. -/
def vainLooks (statuses : Nat → UInt32) (looks : Nat) : List Event :=
  (List.range looks).flatMap fun n => [lookEvent (statuses n), pauseEvent]

theorem vainLooks_succ (statuses : Nat → UInt32) (looks : Nat) :
    vainLooks statuses (looks + 1) =
      lookEvent (statuses 0) :: pauseEvent :: vainLooks (fun n => statuses (n + 1)) looks := by
  rw [vainLooks, List.range_succ_eq_map, List.flatMap_cons, List.flatMap_map]
  rfl

/-- One round of polling: either the look finds the lock, or a pause and all the other rounds
follow it. -/
theorem run_awaitLock_succ (budget : Nat) (m : WindowMemory) :
    (Analog.awaitLock (budget + 1)).run board m =
      if m.statuses 0 &&& Analog.lockBit ≠ 0 then
        ⟨.ok true, [lookEvent (m.statuses 0)], m.later 1⟩
      else
        let rest := (Analog.awaitLock budget).run board (m.later 1)
        { rest with events := lookEvent (m.statuses 0) :: pauseEvent :: rest.events } := by
  have looked : m.look .hdmi Register.analogStatus = (m.statuses 0, m.later 1) :=
    if_pos ⟨rfl, rfl⟩
  rw [Analog.awaitLock, Program.run_bind]
  change Program.Run.andThen ⟨.ok (m.look .hdmi Register.analogStatus).1,
    [lookEvent (m.look .hdmi Register.analogStatus).1],
    (m.look .hdmi Register.analogStatus).2⟩ _ = _
  rw [looked, Program.Run.andThen_ok]
  split <;> rfl

/-- The whole of it. The lock is found at the first value that shows it, or not at all. -/
theorem run_awaitLock (budget : Nat) (m : WindowMemory) :
    (∃ k < budget, m.statuses k &&& Analog.lockBit ≠ 0 ∧
      (∀ n < k, m.statuses n &&& Analog.lockBit = 0) ∧
      (Analog.awaitLock budget).run board m =
        ⟨.ok true, vainLooks m.statuses k ++ [lookEvent (m.statuses k)], m.later (k + 1)⟩) ∨
    ((∀ n < budget, m.statuses n &&& Analog.lockBit = 0) ∧
      (Analog.awaitLock budget).run board m =
        ⟨.ok false, vainLooks m.statuses budget, m.later budget⟩) := by
  induction budget generalizing m with
  | zero => exact .inr ⟨nofun, rfl⟩
  | succ budget ih =>
    rw [run_awaitLock_succ]
    by_cases first : m.statuses 0 &&& Analog.lockBit = 0
    · -- The looks to come see the same values, each one place earlier.
      have shifted {k : Nat} (h : ∀ n < k, (m.later 1).statuses n &&& Analog.lockBit = 0) :
          ∀ n < k + 1, m.statuses n &&& Analog.lockBit = 0
        | 0, _ => first
        | n + 1, hn => h n (by omega)
      rw [if_neg (Decidable.not_not.mpr first)]
      rcases ih (m.later 1) with ⟨k, within, lock, before, run⟩ | ⟨vain, run⟩
      · refine .inl ⟨k + 1, by omega, lock, shifted before, ?_⟩
        rw [run, vainLooks_succ]
        rfl
      · refine .inr ⟨shifted vain, ?_⟩
        rw [run, vainLooks_succ]
        rfl
    · rw [if_pos first]
      exact .inl ⟨0, by omega, first, nofun, rfl⟩

/-- Looking so many times finds a lock that one of these looks shows. -/
theorem awaitLock_answers (budget : Nat) (m : WindowMemory) :
    ∃ found, ((Analog.awaitLock budget).run board m).outcome = .ok found ∧
      (found = true ↔ ∃ k < budget, m.statuses k &&& Analog.lockBit ≠ 0) := by
  rcases run_awaitLock budget m with ⟨k, within, lock, -, run⟩ | ⟨vain, run⟩
  · exact ⟨true, by rw [run], fun _ => ⟨k, within, lock⟩, fun _ => rfl⟩
  · refine ⟨false, by rw [run], nofun, ?_⟩
    rintro ⟨k, within, lock⟩
    exact absurd (vain k within) lock

/-- Say that there is no lock, and switch the analogue part off. -/
def giveUp : Program Unit := do
  Program.log .error "HDMI: failed to wait for hdmiphy ready"
  Analog.store Analog.switchOff

theorem awaitAnalog_exec (link : Link) (allowed : link.phase = .resetReleased) :
    awaitAnalog.exec link = do
      if ← Analog.awaitLock Analog.pollBudget then
        Program.log .info "HDMI: phy ready..."
        return (.ok (), ⟨.phyReady, link.dvi⟩)
      else
        giveUp
        return (.error .phyNotReady, ⟨.uninitialized, link.dvi⟩) := by
  simp only [awaitAnalog, Action.exec_bind, exec_require, allowed, List.mem_singleton, if_true,
    Action.exec_liftM, bind_map_left, pure_bind]
  refine bind_congr fun found => ?_
  cases found <;> simp [disable, giveUp]

/-- Waiting for the clock from the phase that allows it. -/
def awaitRun (dvi : Bool) (m : WindowMemory) :
    Program.Run WindowMemory (Except LinkError Unit × Link) :=
  (awaitAnalog.exec ⟨.resetReleased, dvi⟩).run board m

/-- Whatever the lock status shows: with the first lock among the first 500 values, the link looks
until it sees it, with a pause of 10 ms after every look before, and stores nothing. Otherwise there
are 500 looks with as many pauses, and the analogue part is switched off by two stores. -/
theorem lock_polled (dvi : Bool) (m : WindowMemory) :
    (∀ k < 500, m.statuses k &&& 0x01 ≠ 0 → (∀ n < k, m.statuses n &&& 0x01 = 0) →
      awaitRun dvi m = ⟨.ok (.ok (), ⟨.phyReady, dvi⟩),
        vainLooks m.statuses k ++ [lookEvent (m.statuses k),
          ⟨.log ⟨.info, "HDMI: phy ready..."⟩, ()⟩],
        m.later (k + 1)⟩) ∧
    ((∀ n < 500, m.statuses n &&& 0x01 = 0) →
      awaitRun dvi m = ⟨.ok (.error .phyNotReady, ⟨.uninitialized, dvi⟩),
        vainLooks m.statuses 500 ++ [⟨.log ⟨.error, "HDMI: failed to wait for hdmiphy ready"⟩, ()⟩,
          ⟨.store .hdmi Register.analogMode 0, ()⟩, ⟨.store .hdmi Register.analogMode 0, ()⟩],
        (m.later 500).overwritten [(.hdmi, ⟨Register.analogMode, 0⟩),
          (.hdmi, ⟨Register.analogMode, 0⟩)]⟩) := by
  rw [awaitRun, awaitAnalog_exec _ rfl, Program.run_bind]
  rcases run_awaitLock Analog.pollBudget m with ⟨k, within, lock, before, run⟩ | ⟨vain, run⟩
  · rw [run, Program.Run.andThen_ok]
    refine ⟨fun k' _ lock' before' => ?_, fun vain => absurd (vain k within) lock⟩
    have same : k' = k := by
      rcases Nat.lt_trichotomy k' k with less | same | more
      · exact absurd (before k' less) lock'
      · exact same
      · exact absurd (before' k more) lock
    subst same
    rw [List.append_assoc]
    rfl
  · rw [run, Program.Run.andThen_ok]
    refine ⟨fun k within lock _ => absurd (vain k within) lock, fun _ => ?_⟩
    rfl

/-- Windows of zeros whose clock shows its lock at one look only. -/
def lockingAt (look : Nat) : WindowMemory := ⟨fun _ _ => 0, fun n => if n = look then 1 else 0⟩

theorem lockingAt_of_ne {look n : Nat} (h : n ≠ look) :
    (lockingAt look).statuses n &&& 0x01 = 0 := by
  simp [lockingAt, h]

/-- The lock is found at the last look of all, and one look later it is too late. -/
theorem last_look_counts :
    (awaitRun false (lockingAt 499)).outcome = .ok (.ok (), ⟨.phyReady, false⟩) ∧
    (awaitRun false (lockingAt 500)).outcome = .ok (.error .phyNotReady, ⟨.uninitialized, false⟩) :=
  ⟨congrArg _ ((lock_polled false (lockingAt 499)).1 499 (by decide) (by decide)
      fun _ before => lockingAt_of_ne (Nat.ne_of_lt before)),
    congrArg _ ((lock_polled false (lockingAt 500)).2
      fun _ within => lockingAt_of_ne (Nat.ne_of_lt within))⟩

end Link

end Bringup
