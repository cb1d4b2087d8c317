/-
  Scheduler/PortableControlScheduler.lean --- the timeline of the control cycles.

  Sources: `scheduler/IControlScheduler.hpp`, `scheduler/PortableControlScheduler.hpp`,
  `scheduler/PortableControlScheduler.cpp`.

  A time point is a count of nanoseconds of `std::chrono::steady_clock`; what a function
  reads from the clock is an argument.
-/
import RobotController.Foundation.Double
import Mathlib.Logic.Function.Iterate
import Mathlib.Tactic.Ring

set_option autoImplicit false

namespace RobotController.Scheduler

open RobotController.Foundation

/-- `IControlScheduler::TimePoint`, in nanoseconds. -/
abbrev TimePoint : Type := Int

/-- `Clock::duration`, in nanoseconds. -/
abbrev ClockDuration : Type := Int

/-- `std::chrono::duration<double, std::milli>` of a clock duration. -/
def toMilliseconds {R : Type} [Double R] [IntConversion R] (duration : ClockDuration) : R :=
  ofInt duration / literal 1000000

section Exact

variable {K : Type} [Field K] [LinearOrder K] [FloorRing K]

theorem toMilliseconds_exact (duration : ClockDuration) :
    (toMilliseconds duration : K) = duration / 1000000 := by
  simp [toMilliseconds, ofInt]

theorem toMilliseconds_zero : (toMilliseconds 0 : K) = 0 := by
  simp [toMilliseconds_exact]

theorem toMilliseconds_add (c d : ClockDuration) :
    (toMilliseconds c : K) + toMilliseconds d = toMilliseconds (c + d) := by
  simp only [toMilliseconds_exact]
  push_cast
  ring

variable [IsStrictOrderedRing K]

theorem toMilliseconds_le {c d : ClockDuration} :
    (toMilliseconds c : K) ≤ toMilliseconds d ↔ c ≤ d := by
  rw [toMilliseconds_exact, toMilliseconds_exact,
    div_le_div_iff_of_pos_right (by norm_num : (0 : K) < 1000000), Int.cast_le]

theorem toMilliseconds_lt {c d : ClockDuration} :
    (toMilliseconds c : K) < toMilliseconds d ↔ c < d := by
  rw [← not_le, toMilliseconds_le, not_le]

end Exact

/-- What a control cycle asks of an `IControlScheduler` about a start that was late. -/
structure IControlScheduler (R : Type) where
  hasBacklog : TimePoint → TimePoint → Bool
  schedulingDelay : TimePoint → TimePoint → R
  backlog : TimePoint → TimePoint → R

/-- `class PortableControlScheduler`: `period_`, in milliseconds, and `next_cycle_`. -/
@[ext] structure PortableControlScheduler where
  period : Int
  nextCycle : TimePoint
  deriving DecidableEq, Repr

namespace PortableControlScheduler

/-- The constructor, when the clock reads `now`. -/
def new (period : Int) (now : TimePoint) : PortableControlScheduler := ⟨period, now⟩

/-- `period_` as a clock duration. -/
def periodDuration (s : PortableControlScheduler) : ClockDuration := s.period * 1000000

/-- `PortableControlScheduler::reset`, when the clock reads `now`. -/
def reset (s : PortableControlScheduler) (now : TimePoint) : PortableControlScheduler :=
  { s with nextCycle := now }

/-- `PortableControlScheduler::scheduledCycle`. -/
def scheduledCycle (s : PortableControlScheduler) : TimePoint := s.nextCycle

/-- `PortableControlScheduler::advanceSchedule`. -/
def advanceSchedule (s : PortableControlScheduler) : PortableControlScheduler :=
  { s with nextCycle := s.nextCycle + s.periodDuration }

/-- `PortableControlScheduler::waitForNextCycle` from the moment the clock has reached
`next_cycle_`: the scheduled start, and the scheduler afterwards. -/
def waitForNextCycle (s : PortableControlScheduler) : TimePoint × PortableControlScheduler :=
  let scheduledStart := s.scheduledCycle
  (scheduledStart, s.advanceSchedule)

/-- `PortableControlScheduler::hasBacklog`. -/
def hasBacklog (s : PortableControlScheduler) (actualStart scheduledStart : TimePoint) : Bool :=
  decide (scheduledStart + s.periodDuration ≤ actualStart)

section Milliseconds

variable {R : Type} [Double R] [IntConversion R]

/-- `PortableControlScheduler::schedulingDelay`. -/
def schedulingDelay (actualStart scheduledStart : TimePoint) : R :=
  toMilliseconds (actualStart - scheduledStart)

/-- `PortableControlScheduler::backlog`. -/
def backlog (s : PortableControlScheduler) (actualStart scheduledStart : TimePoint) : R :=
  if s.hasBacklog actualStart scheduledStart then
    toMilliseconds (actualStart - scheduledStart - s.periodDuration)
  else
    0

/-- The scheduler behind its interface. -/
def toIControlScheduler (s : PortableControlScheduler) : IControlScheduler R where
  hasBacklog := s.hasBacklog
  schedulingDelay := schedulingDelay
  backlog := s.backlog

end Milliseconds

@[simp] theorem period_advanceSchedule (s : PortableControlScheduler) :
    s.advanceSchedule.period = s.period := rfl

/-- The timeline: each cycle is scheduled one period after the one before. -/
theorem iterate_advanceSchedule (s : PortableControlScheduler) (k : Nat) :
    advanceSchedule^[k] s = { s with nextCycle := s.nextCycle + k * s.periodDuration } := by
  induction k with
  | zero => simp
  | succ k ih =>
      rw [Function.iterate_succ_apply', ih]
      ext1
      · rfl
      · simp only [advanceSchedule, periodDuration]
        push_cast
        ring

/-! ## Later scheduled starts -/

/-- A later scheduled start has no backlog where an earlier one has none. -/
theorem hasBacklog_of_le (s : PortableControlScheduler)
    {actualStart earlier later : TimePoint} (hle : earlier ≤ later)
    (h : s.hasBacklog actualStart later = true) : s.hasBacklog actualStart earlier = true := by
  simp only [hasBacklog, decide_eq_true_eq] at h ⊢
  linarith

section Exact

variable {K : Type} [Field K] [LinearOrder K] [IsStrictOrderedRing K] [FloorRing K]

/-- The delay is smaller exactly behind a later scheduled start. -/
theorem schedulingDelay_le_iff {actualStart earlier later : TimePoint} :
    (schedulingDelay actualStart later : K) ≤ schedulingDelay actualStart earlier ↔
      earlier ≤ later := by
  rw [schedulingDelay, schedulingDelay, toMilliseconds_le, sub_le_sub_iff_left]

/-- The backlog is no larger behind a later scheduled start. -/
theorem backlog_le_of_le (s : PortableControlScheduler)
    {actualStart earlier later : TimePoint} (hle : earlier ≤ later) :
    (s.backlog actualStart later : K) ≤ s.backlog actualStart earlier := by
  unfold backlog
  by_cases hlater : s.hasBacklog actualStart later = true
  · rw [if_pos hlater, if_pos (s.hasBacklog_of_le hle hlater), toMilliseconds_le]
    linarith
  · rw [if_neg hlater]
    split_ifs with hearlier
    · have hlate : earlier + s.periodDuration ≤ actualStart := of_decide_eq_true hearlier
      rw [← toMilliseconds_zero, toMilliseconds_le]
      linarith
    · exact le_rfl

end Exact

end PortableControlScheduler

end RobotController.Scheduler
