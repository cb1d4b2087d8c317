/-
  Control/Statistics.lean --- the timing statistics of the control loop.

  Sources: `control/ControlLoop.hpp`, `control/ControlLoop.cpp` (`update` and the
  functions that update statistics).

  What `update` reads from the clock and asks of the scheduler is an argument.
  `measured_cycles_` is counted by the worker, as in `Control/Lifecycle.lean`, and is an
  argument as well.
-/
import RobotController.Scheduler.PortableControlScheduler

set_option autoImplicit false

namespace RobotController.Control

open RobotController.Foundation RobotController.Scheduler

/-- The members of `ControlLoop` that hold timing statistics.  A time point that has not
been set is the epoch of the clock. -/
@[ext] structure TimingStatistics (R : Type) where
  previousCycle : TimePoint
  minPeriod : R
  maxPeriod : R
  totalPeriod : R
  maxExecutionTime : R
  maxControlTime : R
  maxSnapshotTime : R
  maxInterCycleGap : R
  previousCycleEnd : TimePoint
  maxSchedulingDelay : R
  minDeadlineMargin : R
  delayedCycles : Nat
  maxBacklog : R
  backlogCycles : Nat
  consecutiveDelayedCycles : Nat
  maxConsecutiveDelayedCycles : Nat
  deadlineMisses : Nat
  schedulingMisses : Nat
  executionMisses : Nat
  combinedMisses : Nat
  delayUnder100us : Nat
  delay100usTo1ms : Nat
  delay1msTo5ms : Nat
  delay5msTo10ms : Nat
  delayOver10ms : Nat
  processorChanges : Nat
  previousProcessor : Int

/-- `struct ControlLoop::CycleTiming`. -/
structure CycleTiming where
  scheduledStart : TimePoint
  actualStart : TimePoint
  deadline : TimePoint
  actualEnd : TimePoint
  deriving DecidableEq, Repr

namespace ControlLoop

variable {R : Type} [Double R]

/-- `control_period_`, in milliseconds. -/
def controlPeriod : Int := 1

/-- `if (value > maximum) maximum = value`. -/
def raise (maximum value : R) : R := if maximum < value then value else maximum

/-- The statistics of a new `ControlLoop`. -/
def initialStatistics : TimingStatistics R where
  previousCycle := 0
  minPeriod := 0
  maxPeriod := 0
  totalPeriod := 0
  maxExecutionTime := 0
  maxControlTime := 0
  maxSnapshotTime := 0
  maxInterCycleGap := 0
  previousCycleEnd := 0
  maxSchedulingDelay := 0
  minDeadlineMargin := 0
  delayedCycles := 0
  maxBacklog := 0
  backlogCycles := 0
  consecutiveDelayedCycles := 0
  maxConsecutiveDelayedCycles := 0
  deadlineMisses := 0
  schedulingMisses := 0
  executionMisses := 0
  combinedMisses := 0
  delayUnder100us := 0
  delay100usTo1ms := 0
  delay1msTo5ms := 0
  delay5msTo10ms := 0
  delayOver10ms := 0
  processorChanges := 0
  previousProcessor := -1

/-! ## The functions that update statistics -/

/-- `ControlLoop::updateProcessorStatistics`. -/
def updateProcessorStatistics (processor : Int) (s : TimingStatistics R) : TimingStatistics R :=
  if 0 ≤ processor then
    { s with
      processorChanges :=
        if 0 ≤ s.previousProcessor ∧ processor ≠ s.previousProcessor then
          s.processorChanges + 1
        else s.processorChanges
      previousProcessor := processor }
  else s

section Milliseconds

variable [IntConversion R]

/-- `ControlLoop::updatePeriodStatistics`. -/
def updatePeriodStatistics (measuredCycles : Nat) (cycleStart : TimePoint)
    (s : TimingStatistics R) : TimingStatistics R :=
  if 0 < measuredCycles then
    let period : R := toMilliseconds (cycleStart - s.previousCycle)
    { s with
      minPeriod := if measuredCycles = 1 ∨ period < s.minPeriod then period else s.minPeriod
      maxPeriod := raise s.maxPeriod period
      totalPeriod := s.totalPeriod + period
      previousCycle := cycleStart }
  else
    { s with previousCycle := cycleStart }

/-- `ControlLoop::updateDelayStatistics`. -/
def updateDelayStatistics (scheduler : IControlScheduler R) (behindSchedule : Bool)
    (cycleStart scheduledStart : TimePoint) (s : TimingStatistics R) : TimingStatistics R :=
  if behindSchedule then
    let consecutive := s.consecutiveDelayedCycles + 1
    let backlog := scheduler.backlog cycleStart scheduledStart
    { s with
      delayedCycles := s.delayedCycles + 1
      consecutiveDelayedCycles := consecutive
      maxConsecutiveDelayedCycles :=
        if s.maxConsecutiveDelayedCycles < consecutive then consecutive
        else s.maxConsecutiveDelayedCycles
      maxBacklog := raise s.maxBacklog backlog
      backlogCycles :=
        if ofInt controlPeriod ≤ backlog then s.backlogCycles + 1 else s.backlogCycles }
  else
    { s with consecutiveDelayedCycles := 0 }

/-- `ControlLoop::updateControlStatistics`. -/
def updateControlStatistics (controlStart controlEnd : TimePoint) (s : TimingStatistics R) :
    TimingStatistics R :=
  { s with maxControlTime := raise s.maxControlTime (toMilliseconds (controlEnd - controlStart)) }

/-- `ControlLoop::updateSnapshotStatistics`. -/
def updateSnapshotStatistics (snapshotStart snapshotEnd : TimePoint) (s : TimingStatistics R) :
    TimingStatistics R :=
  { s with
    maxSnapshotTime := raise s.maxSnapshotTime (toMilliseconds (snapshotEnd - snapshotStart)) }

/-- `ControlLoop::updateInterCycleStatistics`. -/
def updateInterCycleStatistics (measuredCycles : Nat) (cycleStart cycleEnd : TimePoint)
    (s : TimingStatistics R) : TimingStatistics R :=
  { s with
    maxInterCycleGap :=
      if 0 < measuredCycles then
        raise s.maxInterCycleGap (toMilliseconds (cycleStart - s.previousCycleEnd))
      else s.maxInterCycleGap
    previousCycleEnd := cycleEnd }

/-- `ControlLoop::updateDeadlineStatistics`. -/
def updateDeadlineStatistics (deadline actualEnd : TimePoint) (measuredCycles : Nat)
    (s : TimingStatistics R) : TimingStatistics R :=
  let margin : R := toMilliseconds (deadline - actualEnd)
  { s with
    minDeadlineMargin :=
      if measuredCycles = 0 ∨ margin < s.minDeadlineMargin then margin
      else s.minDeadlineMargin }

/-- `ControlLoop::updateExecutionStatistics`: the execution time, and the statistics. -/
def updateExecutionStatistics (actualStart actualEnd : TimePoint) (s : TimingStatistics R) :
    R × TimingStatistics R :=
  let execution := toMilliseconds (actualEnd - actualStart)
  (execution, { s with maxExecutionTime := raise s.maxExecutionTime execution })

/-- `ControlLoop::updateMissStatistics`. -/
def updateMissStatistics (actualEnd deadline : TimePoint) (schedulingDelay execution : R)
    (s : TimingStatistics R) : TimingStatistics R :=
  if deadline < actualEnd then
    let s := { s with deadlineMisses := s.deadlineMisses + 1 }
    if 0 < schedulingDelay ∧ ofInt controlPeriod < execution then
      { s with combinedMisses := s.combinedMisses + 1 }
    else if 0 < schedulingDelay then
      { s with schedulingMisses := s.schedulingMisses + 1 }
    else
      { s with executionMisses := s.executionMisses + 1 }
  else s

end Milliseconds

/-- `ControlLoop::updateSchedulingStatistics`. -/
def updateSchedulingStatistics (delay : R) (s : TimingStatistics R) : TimingStatistics R :=
  let s :=
    if delay < literal (1 / 10) then { s with delayUnder100us := s.delayUnder100us + 1 }
    else if delay < literal 1 then { s with delay100usTo1ms := s.delay100usTo1ms + 1 }
    else if delay < literal 5 then { s with delay1msTo5ms := s.delay1msTo5ms + 1 }
    else if delay < literal 10 then { s with delay5msTo10ms := s.delay5msTo10ms + 1 }
    else { s with delayOver10ms := s.delayOver10ms + 1 }
  { s with maxSchedulingDelay := raise s.maxSchedulingDelay delay }

/-! ## One cycle -/

section Cycle

variable [IntConversion R]

/-- The timing of a cycle that begins. -/
def beginTiming (scheduledStart cycleStart : TimePoint) : CycleTiming where
  scheduledStart := scheduledStart
  actualStart := cycleStart
  deadline := scheduledStart + controlPeriod * 1000000
  actualEnd := 0

/-- The statistics `update` takes before it reads the command buffer. -/
def beginStatistics (scheduler : IControlScheduler R) (measuredCycles : Nat) (processor : Int)
    (timing : CycleTiming) (s : TimingStatistics R) : TimingStatistics R :=
  let s := updateProcessorStatistics processor s
  let behindSchedule := scheduler.hasBacklog timing.actualStart timing.scheduledStart
  let s := updatePeriodStatistics measuredCycles timing.actualStart s
  updateDelayStatistics scheduler behindSchedule timing.actualStart timing.scheduledStart s

/-- The statistics `update` takes after its last publication. -/
def endStatistics (scheduler : IControlScheduler R) (measuredCycles : Nat)
    (snapshotStart snapshotEnd : TimePoint) (timing : CycleTiming) (s : TimingStatistics R) :
    TimingStatistics R :=
  let s := updateSnapshotStatistics snapshotStart snapshotEnd s
  let s := updateInterCycleStatistics measuredCycles timing.actualStart timing.actualEnd s
  let delay := scheduler.schedulingDelay timing.actualStart timing.scheduledStart
  let s := updateSchedulingStatistics delay s
  let s := updateDeadlineStatistics timing.deadline timing.actualEnd measuredCycles s
  let (execution, s) := updateExecutionStatistics timing.actualStart timing.actualEnd s
  updateMissStatistics timing.actualEnd timing.deadline delay execution s

end Cycle

/-! ## Every cycle is counted -/

section Balanced

/-- After so many cycles: each is in one of the five groups of scheduling delays, and
each deadline miss is of one of the three kinds. -/
structure Balanced (measuredCycles : Nat) (s : TimingStatistics R) : Prop where
  delays : s.delayUnder100us + s.delay100usTo1ms + s.delay1msTo5ms + s.delay5msTo10ms +
    s.delayOver10ms = measuredCycles
  misses : s.deadlineMisses = s.schedulingMisses + s.executionMisses + s.combinedMisses

variable {n : Nat} {s : TimingStatistics R}

theorem balanced_initial : Balanced 0 (initialStatistics : TimingStatistics R) := ⟨rfl, rfl⟩

theorem Balanced.scheduling (h : Balanced n s) (delay : R) :
    Balanced (n + 1) (updateSchedulingStatistics delay s) := by
  obtain ⟨hdelays, hmisses⟩ := h
  unfold updateSchedulingStatistics
  split_ifs <;> refine ⟨?_, hmisses⟩ <;> simp only <;> omega

variable [IntConversion R]

/-- The statistics at the beginning count no cycle yet. -/
theorem Balanced.beginStatistics (h : Balanced n s) (scheduler : IControlScheduler R)
    (measuredCycles : Nat) (processor : Int) (timing : CycleTiming) :
    Balanced n (beginStatistics scheduler measuredCycles processor timing s) := by
  have hprocessor : Balanced n (updateProcessorStatistics processor s) := by
    unfold updateProcessorStatistics
    split_ifs <;> exact ⟨h.delays, h.misses⟩
  have hperiod : Balanced n (updatePeriodStatistics measuredCycles timing.actualStart
      (updateProcessorStatistics processor s)) := by
    unfold updatePeriodStatistics
    split_ifs <;> exact ⟨hprocessor.delays, hprocessor.misses⟩
  unfold ControlLoop.beginStatistics updateDelayStatistics
  cases scheduler.hasBacklog timing.actualStart timing.scheduledStart <;>
    exact ⟨hperiod.delays, hperiod.misses⟩

theorem Balanced.controlStatistics (h : Balanced n s) (controlStart controlEnd : TimePoint) :
    Balanced n (updateControlStatistics controlStart controlEnd s) := ⟨h.delays, h.misses⟩

theorem Balanced.miss (h : Balanced n s) (actualEnd deadline : TimePoint) (delay execution : R) :
    Balanced n (updateMissStatistics actualEnd deadline delay execution s) := by
  obtain ⟨hdelays, hmisses⟩ := h
  unfold updateMissStatistics
  by_cases hmissed : deadline < actualEnd
  · rw [if_pos hmissed]
    split_ifs <;> refine ⟨hdelays, ?_⟩ <;> simp only <;> omega
  · rw [if_neg hmissed]
    exact ⟨hdelays, hmisses⟩

/-- Those at the end count it once. -/
theorem Balanced.endStatistics (h : Balanced n s) (scheduler : IControlScheduler R)
    (measuredCycles : Nat) (snapshotStart snapshotEnd : TimePoint) (timing : CycleTiming) :
    Balanced (n + 1)
      (endStatistics scheduler measuredCycles snapshotStart snapshotEnd timing s) := by
  have hdone : Balanced n (updateInterCycleStatistics measuredCycles timing.actualStart
      timing.actualEnd (updateSnapshotStatistics snapshotStart snapshotEnd s)) :=
    ⟨h.delays, h.misses⟩
  have hdelay := hdone.scheduling
    (scheduler.schedulingDelay timing.actualStart timing.scheduledStart)
  refine Balanced.miss ?_ _ _ _ _
  exact ⟨hdelay.delays, hdelay.misses⟩

end Balanced

end ControlLoop

end RobotController.Control
