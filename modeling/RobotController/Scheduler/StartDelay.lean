/-
  Scheduler/StartDelay.lean --- the starts of the control cycles against the timeline.

  Sources: `scheduler/PortableControlScheduler.cpp` (`waitForNextCycle`,
  `scheduledCycle`, `advanceSchedule`), `control/ControlLoop.cpp` (`update`).

  The loop asks for the next cycle, is busy for some time and asks again.  The timeline
  goes on from its own last point and never from the clock, so a cycle that was late is
  late by what the cycles before it took too long, and by no more.
-/
import RobotController.Foundation.CatchUp
import RobotController.Scheduler.PortableControlScheduler
import Mathlib.Algebra.Order.Group.MinMax

set_option autoImplicit false

namespace RobotController.Scheduler

open RobotController.Foundation

/-- The time `std::this_thread::sleep_until(wake)` returns at, on a machine without
latency, when it is called at `now`. -/
def sleepUntil (now wake : TimePoint) : TimePoint := max now wake

/-- When a cycle should have started, and when it did. -/
structure CycleStart where
  scheduled : TimePoint
  actual : TimePoint
  deriving DecidableEq, Repr

namespace CycleStart

/-- `actual_start - scheduled_start`, as `schedulingDelay` takes it. -/
def delay (start : CycleStart) : ClockDuration := start.actual - start.scheduled

end CycleStart

namespace PortableControlScheduler

/-- One call of `waitForNextCycle` at `now`: the start of the cycle, and the scheduler
afterwards. -/
def startCycle (now : TimePoint) (s : PortableControlScheduler) :
    CycleStart × PortableControlScheduler :=
  let wait := s.waitForNextCycle
  (⟨wait.1, sleepUntil now s.nextCycle⟩, wait.2)

/-- The clock and the scheduler at call `k`, when the loop is busy for `busy i` between the
start of cycle `i` and the next call. -/
def atCall (now : TimePoint) (s : PortableControlScheduler) (busy : Nat → ClockDuration) :
    Nat → TimePoint × PortableControlScheduler
  | 0 => (now, s)
  | k + 1 =>
      let called := atCall now s busy k
      let started := startCycle called.1 called.2
      (started.1.actual + busy k, started.2)

/-- The start of cycle `k`. -/
def start (now : TimePoint) (s : PortableControlScheduler) (busy : Nat → ClockDuration)
    (k : Nat) : CycleStart :=
  let called := atCall now s busy k
  (startCycle called.1 called.2).1

section Calls

variable (now : TimePoint) (s : PortableControlScheduler) (busy : Nat → ClockDuration) (k : Nat)

/-- Every call moves the timeline on by one period, whenever it comes. -/
theorem scheduler_atCall : (atCall now s busy k).2 = advanceSchedule^[k] s := by
  induction k with
  | zero => rfl
  | succ k ih =>
      rw [Function.iterate_succ_apply', ← ih]
      rfl

theorem scheduled_start :
    (start now s busy k).scheduled = s.nextCycle + k * s.periodDuration := by
  change (atCall now s busy k).2.nextCycle = _
  rw [scheduler_atCall, iterate_advanceSchedule]

theorem scheduled_start_succ :
    (start now s busy (k + 1)).scheduled = (start now s busy k).scheduled + s.periodDuration := by
  rw [scheduled_start, scheduled_start]
  push_cast
  ring

/-- A cycle starts on time, or when the busy time of the one before it is over. -/
theorem actual_start_succ :
    (start now s busy (k + 1)).actual =
      max ((start now s busy k).actual + busy k) (start now s busy (k + 1)).scheduled := rfl

/-- The delay grows by what a cycle takes beyond its period, and is used up by what it leaves
of it. -/
theorem delay_start_succ :
    (start now s busy (k + 1)).delay =
      max 0 ((start now s busy k).delay + (busy k - s.periodDuration)) := by
  rw [CycleStart.delay, CycleStart.delay, actual_start_succ, ← max_sub_sub_right,
    sub_self, max_comm, scheduled_start_succ]
  congr 1
  ring

theorem delay_start :
    (start now s busy k).delay =
      lateness (max 0 (now - s.nextCycle)) (fun i => busy i - s.periodDuration) k := by
  induction k with
  | zero =>
      change max now s.nextCycle - s.nextCycle = max 0 (now - s.nextCycle)
      rw [← max_sub_sub_right, sub_self, max_comm]
  | succ k ih =>
      rw [delay_start_succ, ih]
      rfl

end Calls

/-- The schedule never drifts, and the delay follows the catch-up law.  For every first
scheduled start `T₀`, every positive period and all busy times: cycle `k` is scheduled
at `T₀ + k * p`, each once; when the first call is not late, its delay is the largest sum
of consecutive overruns before it; and cycles that leave `r` of their period use up a
delay by `r` each. -/
theorem schedule_catches_up (T₀ now : TimePoint) (period : Int) (hperiod : 0 < period)
    (busy : Nat → ClockDuration) :
    let s : PortableControlScheduler := ⟨period, T₀⟩
    let p := s.periodDuration
    let cycle := start now s busy
    (∀ k : Nat, (cycle k).scheduled = T₀ + k * p) ∧
      (∀ k, (cycle (k + 1)).scheduled = (cycle k).scheduled + p) ∧
      (Function.Injective fun k => (cycle k).scheduled) ∧
      (now ≤ T₀ → ∀ k, IsGreatest {d | ∃ j ≤ k, d = ∑ i ∈ Finset.Ico j k, (busy i - p)}
        (cycle k).delay) ∧
      ∀ (m : Nat) (r : ClockDuration), (∀ i, m ≤ i → busy i ≤ p - r) →
        ∀ k, m ≤ k → (cycle k).delay ≤ max 0 ((cycle m).delay - ((k : Int) - m) * r) := by
  intro s p cycle
  have hscheduled : ∀ k : Nat, (cycle k).scheduled = T₀ + k * p := scheduled_start now s busy
  have hpositive : 0 < p := mul_pos hperiod (by decide)
  refine ⟨hscheduled, scheduled_start_succ now s busy, ?_, ?_, ?_⟩
  · intro i j hij
    have hproduct : (i : Int) * p = j * p := by
      have hsame : (cycle i).scheduled = (cycle j).scheduled := hij
      rw [hscheduled, hscheduled] at hsame
      exact add_left_cancel hsame
    exact_mod_cast mul_right_cancel₀ hpositive.ne' hproduct
  · intro hnow k
    have hfirst : max 0 (now - s.nextCycle) = 0 := max_eq_left (sub_nonpos.mpr hnow)
    have hdelay := delay_start now s busy k
    rw [hfirst] at hdelay
    rw [hdelay]
    exact isGreatest_lateness _ k
  · intro m r hbusy k hk
    rw [delay_start, delay_start]
    have hexcess : ∀ i, m ≤ i → busy i - p ≤ -r := fun i hi => by linarith [hbusy i hi]
    have hle := lateness_le (le_max_left 0 (now - s.nextCycle)) hexcess hk
    rwa [nsmul_eq_mul, Nat.cast_sub hk] at hle

/-- A first cycle of 3.5 milliseconds, then cycles of 0.4. -/
def overloaded (i : Nat) : ClockDuration := if i = 0 then 3500000 else 400000

/-- The delay of 2.5 milliseconds has been used up at cycle 6, which is scheduled where it
always was. -/
theorem caught_up_after_overload :
    (start 0 ⟨1, 0⟩ overloaded 1).delay = 2500000 ∧
      (start 0 ⟨1, 0⟩ overloaded 6).delay ≤ 0 ∧
      (start 0 ⟨1, 0⟩ overloaded 6).scheduled = 6000000 := by
  obtain ⟨hscheduled, -, -, -, hcatch⟩ := schedule_catches_up 0 0 1 (by decide) overloaded
  have hbusy : ∀ i, 1 ≤ i → overloaded i ≤ 1000000 - 600000 := by
    intro i hi
    rw [overloaded, if_neg (by omega)]
    decide
  have hle := hcatch 1 600000 hbusy 6 (by decide)
  exact ⟨by decide, hle, hscheduled 6⟩

end PortableControlScheduler

end RobotController.Scheduler
