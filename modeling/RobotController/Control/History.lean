/-
  Control/History.lean --- the timing statistics as functions of the history of cycles.

  Sources: `control/ControlLoop.hpp`, `control/ControlLoop.cpp` (`update`,
  `printTimingStatistics` and the functions that update statistics),
  `scheduler/PortableControlScheduler.cpp`.

  Every cycle adds to a dozen accumulators.  In exact arithmetic each of them is described
  here by the readings of all cycles so far: how many were late, how long the longest run
  of late cycles was, the extremes of the periods.
-/
import RobotController.Control.Statistics
import RobotController.Foundation.RunningTotals
import Mathlib.Algebra.Order.BigOperators.Group.Finset
import Mathlib.Algebra.BigOperators.Ring.Finset
import Mathlib.Data.Rat.Floor

set_option autoImplicit false

namespace RobotController.Control

open RobotController.Foundation RobotController.Scheduler

/-- What one cycle reads from the clock, the scheduled start it is given and the processor
it runs on. -/
structure CycleReadings where
  processor : Int
  scheduledStart : TimePoint
  cycleStart : TimePoint
  controlStart : TimePoint
  controlEnd : TimePoint
  snapshotStart : TimePoint
  snapshotEnd : TimePoint
  actualEnd : TimePoint
  deriving DecidableEq, Repr

namespace ControlLoop

section History

variable {R : Type} [Double R] [IntConversion R]

/-- The statistics one call of `ControlLoop::update` takes. -/
def takeStatistics (scheduler : IControlScheduler R) (measuredCycles : Nat)
    (readings : CycleReadings) (s : TimingStatistics R) : TimingStatistics R :=
  let timing := beginTiming readings.scheduledStart readings.cycleStart
  let s := beginStatistics scheduler measuredCycles readings.processor timing s
  let s := updateControlStatistics readings.controlStart readings.controlEnd s
  endStatistics scheduler measuredCycles readings.snapshotStart readings.snapshotEnd
    { timing with actualEnd := readings.actualEnd } s

/-- The statistics of a new loop after `n` cycles. -/
def statisticsAfter (scheduler : IControlScheduler R) (cycle : Nat → CycleReadings) :
    Nat → TimingStatistics R
  | 0 => initialStatistics
  | n + 1 => takeStatistics scheduler n (cycle n) (statisticsAfter scheduler cycle n)

/-- `average_period` of `ControlLoop::printTimingStatistics`. -/
def averagePeriod (measuredCycles : Nat) (s : TimingStatistics R) : R :=
  s.totalPeriod / ofInt (measuredCycles - 1)

end History

/-! ## The history -/

section Events

variable (cycle : Nat → CycleReadings) (i : Nat)

/-- Cycle `i` ended after its deadline. -/
def Missed : Prop := (cycle i).scheduledStart + 1000000 < (cycle i).actualEnd

/-- Cycle `i` took longer than a period. -/
def Overran : Prop := 1000000 < (cycle i).actualEnd - (cycle i).cycleStart

/-- Cycle `i` began a period late or later. -/
def Delayed : Prop := (cycle i).scheduledStart + 1000000 ≤ (cycle i).cycleStart

/-- Cycle `i` began two periods late or later. -/
def HasFullBacklog : Prop := (cycle i).scheduledStart + 2000000 ≤ (cycle i).cycleStart

variable {cycle i} in
theorem HasFullBacklog.delayed (h : HasFullBacklog cycle i) : Delayed cycle i := by
  unfold HasFullBacklog at h
  unfold Delayed
  linarith

instance : DecidablePred (Missed cycle) := fun _ => Int.decLt _ _

instance : DecidablePred (Overran cycle) := fun _ => Int.decLt _ _

instance : DecidablePred (Delayed cycle) := fun _ => Int.decLe _ _

instance : DecidablePred (HasFullBacklog cycle) := fun _ => Int.decLe _ _

/-- From the start of cycle `i` to the start of the next one. -/
def period : ClockDuration := (cycle (i + 1)).cycleStart - (cycle i).cycleStart

/-- From the end of cycle `i` to the start of the next one. -/
def interCycleGap : ClockDuration := (cycle (i + 1)).cycleStart - (cycle i).actualEnd

/-- What was left of the time of cycle `i` when it ended. -/
def deadlineMargin : ClockDuration :=
  (cycle i).scheduledStart + 1000000 - (cycle i).actualEnd

/-- The processors the first `n` cycles ran on, where they are known: a negative id says
that it is not. -/
def processors (n : Nat) : List Int :=
  ((List.range n).map fun i => (cycle i).processor).filter fun processor => 0 ≤ processor

end Events

/-! ## What one cycle adds -/

/-- No two of the functions write to the same accumulator, so their order does not matter:
each can be taken from the statistics before the cycle. -/
theorem takeStatistics_eq {R : Type} [Double R] [IntConversion R]
    (scheduler : IControlScheduler R) (n : Nat) (readings : CycleReadings)
    (s : TimingStatistics R) :
    takeStatistics scheduler n readings s =
      let deadline := readings.scheduledStart + controlPeriod * 1000000
      let delay := scheduler.schedulingDelay readings.cycleStart readings.scheduledStart
      let processor := updateProcessorStatistics readings.processor s
      let period := updatePeriodStatistics n readings.cycleStart s
      let delayed := updateDelayStatistics scheduler
        (scheduler.hasBacklog readings.cycleStart readings.scheduledStart) readings.cycleStart
        readings.scheduledStart s
      let control := updateControlStatistics readings.controlStart readings.controlEnd s
      let snapshot := updateSnapshotStatistics readings.snapshotStart readings.snapshotEnd s
      let gap := updateInterCycleStatistics n readings.cycleStart readings.actualEnd s
      let scheduling := updateSchedulingStatistics delay s
      let margin := updateDeadlineStatistics deadline readings.actualEnd n s
      let execution := updateExecutionStatistics readings.cycleStart readings.actualEnd s
      let missed := updateMissStatistics readings.actualEnd deadline delay execution.1 s
      { previousCycle := period.previousCycle
        minPeriod := period.minPeriod
        maxPeriod := period.maxPeriod
        totalPeriod := period.totalPeriod
        maxExecutionTime := execution.2.maxExecutionTime
        maxControlTime := control.maxControlTime
        maxSnapshotTime := snapshot.maxSnapshotTime
        maxInterCycleGap := gap.maxInterCycleGap
        previousCycleEnd := gap.previousCycleEnd
        maxSchedulingDelay := scheduling.maxSchedulingDelay
        minDeadlineMargin := margin.minDeadlineMargin
        delayedCycles := delayed.delayedCycles
        maxBacklog := delayed.maxBacklog
        backlogCycles := delayed.backlogCycles
        consecutiveDelayedCycles := delayed.consecutiveDelayedCycles
        maxConsecutiveDelayedCycles := delayed.maxConsecutiveDelayedCycles
        deadlineMisses := missed.deadlineMisses
        schedulingMisses := missed.schedulingMisses
        executionMisses := missed.executionMisses
        combinedMisses := missed.combinedMisses
        delayUnder100us := scheduling.delayUnder100us
        delay100usTo1ms := scheduling.delay100usTo1ms
        delay1msTo5ms := scheduling.delay1msTo5ms
        delay5msTo10ms := scheduling.delay5msTo10ms
        delayOver10ms := scheduling.delayOver10ms
        processorChanges := processor.processorChanges
        previousProcessor := processor.previousProcessor } := by
  simp only [takeStatistics, beginStatistics, endStatistics, beginTiming,
    updateProcessorStatistics, updatePeriodStatistics, updateDelayStatistics,
    updateControlStatistics, updateSnapshotStatistics, updateInterCycleStatistics,
    updateSchedulingStatistics, updateDeadlineStatistics, updateExecutionStatistics,
    updateMissStatistics]
  -- A function that leaves an accumulator alone does so in all of its branches.
  ext
  case processorChanges | previousProcessor =>
    simp only [apply_ite TimingStatistics.processorChanges,
      apply_ite TimingStatistics.previousProcessor, ite_self]
  case previousCycle | minPeriod | maxPeriod | totalPeriod =>
    simp only [apply_ite TimingStatistics.previousCycle, apply_ite TimingStatistics.minPeriod,
      apply_ite TimingStatistics.maxPeriod, apply_ite TimingStatistics.totalPeriod, ite_self]
  case delayedCycles | maxBacklog | backlogCycles |
      consecutiveDelayedCycles | maxConsecutiveDelayedCycles =>
    simp only [apply_ite TimingStatistics.delayedCycles, apply_ite TimingStatistics.maxBacklog,
      apply_ite TimingStatistics.backlogCycles,
      apply_ite TimingStatistics.consecutiveDelayedCycles,
      apply_ite TimingStatistics.maxConsecutiveDelayedCycles, ite_self]
  case maxControlTime =>
    simp only [apply_ite TimingStatistics.maxControlTime, ite_self]
  case maxSnapshotTime =>
    simp only [apply_ite TimingStatistics.maxSnapshotTime, ite_self]
  case maxInterCycleGap | previousCycleEnd =>
    simp only [apply_ite TimingStatistics.maxInterCycleGap,
      apply_ite TimingStatistics.previousCycleEnd, ite_self]
  case delayUnder100us | delay100usTo1ms | delay1msTo5ms |
      delay5msTo10ms | delayOver10ms | maxSchedulingDelay =>
    simp only [apply_ite TimingStatistics.delayUnder100us,
      apply_ite TimingStatistics.delay100usTo1ms, apply_ite TimingStatistics.delay1msTo5ms,
      apply_ite TimingStatistics.delay5msTo10ms, apply_ite TimingStatistics.delayOver10ms,
      apply_ite TimingStatistics.maxSchedulingDelay, ite_self]
  case minDeadlineMargin =>
    simp only [apply_ite TimingStatistics.minDeadlineMargin, ite_self]
  case maxExecutionTime =>
    simp only [apply_ite TimingStatistics.maxExecutionTime, ite_self]
  case deadlineMisses | schedulingMisses | executionMisses | combinedMisses =>
    simp only [apply_ite TimingStatistics.deadlineMisses,
      apply_ite TimingStatistics.schedulingMisses, apply_ite TimingStatistics.executionMisses,
      apply_ite TimingStatistics.combinedMisses, ite_self]

/-! ## One accumulator after the other -/

section Counted

variable {R : Type} [Double R] [IntConversion R] (scheduler : IControlScheduler R)
  (cycle : Nat → CycleReadings) (n : Nat)

theorem balanced_statisticsAfter : Balanced n (statisticsAfter scheduler cycle n) := by
  induction n with
  | zero => exact balanced_initial
  | succ n ih =>
      have hbegin := ih.beginStatistics scheduler n (cycle n).processor
        (beginTiming (cycle n).scheduledStart (cycle n).cycleStart)
      have hcontrol := hbegin.controlStatistics (cycle n).controlStart (cycle n).controlEnd
      exact hcontrol.endStatistics scheduler n _ _ _

theorem processors_succ :
    processors cycle (n + 1) = if 0 ≤ (cycle n).processor then
      processors cycle n ++ [(cycle n).processor] else processors cycle n := by
  rw [processors, List.range_succ, List.map_append, List.filter_append, List.map_singleton,
    List.filter_singleton]
  split_ifs with h <;> simp [h, processors]

/-- Changes are counted between processors that are known, and the last one is kept. -/
theorem processors_statisticsAfter :
    (statisticsAfter scheduler cycle n).processorChanges = changes (processors cycle n) ∧
      (statisticsAfter scheduler cycle n).previousProcessor =
        (processors cycle n).getLastD (-1) := by
  induction n with
  | zero => exact ⟨rfl, rfl⟩
  | succ n ih =>
      obtain ⟨hchanges, hprevious⟩ := ih
      rw [statisticsAfter, takeStatistics_eq, processors_succ]
      simp only [updateProcessorStatistics]
      by_cases hknown : 0 ≤ (cycle n).processor
      · rw [if_pos hknown, if_pos hknown]
        refine ⟨?_, by simp⟩
        simp only [hchanges, hprevious]
        rcases List.eq_nil_or_concat' (processors cycle n) with hnil | ⟨l, last, hlast⟩
        · rw [hnil]
          rfl
        · have hmem : last ∈ processors cycle n := by simp [hlast]
          have hvalid : 0 ≤ last := by simpa using (List.mem_filter.mp hmem).2
          rw [hlast, changes_concat]
          by_cases hsame : (cycle n).processor = last
          · simp [hsame]
          · simp [hsame, hvalid]
      · rw [if_neg hknown, if_neg hknown]
        exact ⟨hchanges, hprevious⟩

end Counted

/-! ## Exact milliseconds -/

section Exact

variable {K : Type} [Field K] [LinearOrder K] [FloorRing K]

/-- `control_period_`, as a clock duration. -/
theorem ofInt_controlPeriod : (ofInt controlPeriod : K) = toMilliseconds 1000000 := by
  simp [toMilliseconds_exact, ofInt, controlPeriod]

variable (scheduler : IControlScheduler K) (cycle : Nat → CycleReadings) (n : Nat)

/-- The statistics of the gaps between cycles, once cycle `n` has ended. -/
structure Gaps (s : TimingStatistics K) : Prop where
  previousCycleEnd : s.previousCycleEnd = (cycle n).actualEnd
  greatest : IsGreatest
    (insert 0 ((fun i => toMilliseconds (interCycleGap cycle i)) '' Set.Iio n))
    s.maxInterCycleGap

theorem gaps_statisticsAfter : Gaps cycle n (statisticsAfter scheduler cycle (n + 1)) := by
  induction n with
  | zero =>
      rw [statisticsAfter, takeStatistics_eq]
      refine ⟨rfl, ?_⟩
      simp [updateInterCycleStatistics, statisticsAfter, initialStatistics]
  | succ n ih =>
      obtain ⟨hprevious, hgreatest⟩ := ih
      rw [statisticsAfter, takeStatistics_eq]
      generalize statisticsAfter scheduler cycle (n + 1) = s at *
      have hgap : (cycle (n + 1)).cycleStart - s.previousCycleEnd = interCycleGap cycle n := by
        rw [hprevious, interCycleGap]
      simp only [updateInterCycleStatistics, if_pos n.succ_pos, hgap]
      exact ⟨rfl, isGreatest_succ hgreatest⟩

/-- The margin kept is the least of all. -/
theorem margins_statisticsAfter :
    IsLeast ((fun i => toMilliseconds (deadlineMargin cycle i)) '' Set.Iio (n + 1))
      (statisticsAfter scheduler cycle (n + 1)).minDeadlineMargin := by
  induction n with
  | zero =>
      rw [statisticsAfter, takeStatistics_eq]
      exact isLeast_first _
  | succ n ih =>
      rw [statisticsAfter, takeStatistics_eq]
      have hlater : ¬ n + 1 = 0 := by omega
      simp only [updateDeadlineStatistics, hlater, false_or]
      exact isLeast_succ ih

/-- The statistics of the periods, once cycle `n` has begun. -/
structure Periods (s : TimingStatistics K) : Prop where
  previousCycle : s.previousCycle = (cycle n).cycleStart
  total : s.totalPeriod = toMilliseconds ((cycle n).cycleStart - (cycle 0).cycleStart)
  least : 0 < n → IsLeast ((fun i => toMilliseconds (period cycle i)) '' Set.Iio n) s.minPeriod
  greatest :
    IsGreatest (insert 0 ((fun i => toMilliseconds (period cycle i)) '' Set.Iio n)) s.maxPeriod

theorem periods_statisticsAfter : Periods cycle n (statisticsAfter scheduler cycle (n + 1)) := by
  induction n with
  | zero =>
      rw [statisticsAfter, takeStatistics_eq]
      refine ⟨rfl, ?_, fun h => absurd h (lt_irrefl 0), ?_⟩
      · rw [sub_self, toMilliseconds_zero]
        rfl
      · simp [updatePeriodStatistics, statisticsAfter, initialStatistics]
  | succ n ih =>
      obtain ⟨hprevious, htotal, hleast, hgreatest⟩ := ih
      rw [statisticsAfter, takeStatistics_eq]
      generalize statisticsAfter scheduler cycle (n + 1) = s at *
      have hperiod : (cycle (n + 1)).cycleStart - s.previousCycle = period cycle n := by
        rw [hprevious, period]
      simp only [updatePeriodStatistics, if_pos n.succ_pos, hperiod]
      refine ⟨rfl, ?_, ?_, isGreatest_succ hgreatest⟩
      · simp only [htotal, toMilliseconds_add, period]
        congr 1
        ring
      · intro _
        rcases Nat.eq_zero_or_pos n with rfl | hpos
        · exact isLeast_first _
        · have hlater : ¬ n + 1 = 1 := by omega
          simp only [hlater, false_or]
          exact isLeast_succ (hleast hpos)

/-- The periods of `n + 1` cycles add up to the time between the first and the last start. -/
theorem sum_periods :
    ∑ i ∈ Finset.range n, (toMilliseconds (period cycle i) : K) =
      toMilliseconds ((cycle n).cycleStart - (cycle 0).cycleStart) := by
  induction n with
  | zero => rw [Finset.sum_range_zero, sub_self, toMilliseconds_zero]
  | succ n ih =>
      rw [Finset.sum_range_succ, ih, toMilliseconds_add, period]
      congr 1
      ring

theorem Periods.total_eq_sum {s : TimingStatistics K} (h : Periods cycle n s) :
    s.totalPeriod = ∑ i ∈ Finset.range n, toMilliseconds (period cycle i) :=
  h.total.trans (sum_periods cycle n).symm

/-! ## Delays and misses, as the portable scheduler reports them -/

variable [IsStrictOrderedRing K]

variable {cycle n} {portable : PortableControlScheduler} {s : TimingStatistics K}

theorem hasBacklog_iff (hperiod : portable.period = 1) (i : Nat) :
    portable.hasBacklog (cycle i).cycleStart (cycle i).scheduledStart = true ↔
      Delayed cycle i := by
  simp [PortableControlScheduler.hasBacklog, PortableControlScheduler.periodDuration, hperiod,
    Delayed]

theorem controlPeriod_le_backlog_iff (hperiod : portable.period = 1) {i : Nat}
    (h : Delayed cycle i) :
    (ofInt controlPeriod : K) ≤
        portable.backlog (cycle i).cycleStart (cycle i).scheduledStart ↔
      HasFullBacklog cycle i := by
  rw [PortableControlScheduler.backlog, if_pos ((hasBacklog_iff hperiod i).mpr h),
    ofInt_controlPeriod, toMilliseconds_le, PortableControlScheduler.periodDuration, hperiod,
    HasFullBacklog, one_mul, le_sub_iff_add_le, le_sub_iff_add_le, add_comm]
  exact Iff.rfl

/-- The statistics of the delays after `n` cycles. -/
structure Delays (cycle : Nat → CycleReadings) (n : Nat) (s : TimingStatistics K) : Prop where
  delayed : s.delayedCycles = Nat.count (Delayed cycle) n
  blocks : Blocks (Delayed cycle) n s.consecutiveDelayedCycles s.maxConsecutiveDelayedCycles
  backlog : s.backlogCycles = Nat.count (HasFullBacklog cycle) n

theorem Delays.update (h : Delays cycle n s) (hperiod : portable.period = 1) :
    Delays cycle (n + 1) (updateDelayStatistics portable.toIControlScheduler
      (portable.hasBacklog (cycle n).cycleStart (cycle n).scheduledStart)
      (cycle n).cycleStart (cycle n).scheduledStart s) := by
  obtain ⟨hdelayed, hblocks, hbacklog⟩ := h
  have hiff : portable.hasBacklog (cycle n).cycleStart (cycle n).scheduledStart = true ↔
      Delayed cycle n := hasBacklog_iff hperiod n
  by_cases hlate : Delayed cycle n
  · have hfull := controlPeriod_le_backlog_iff (K := K) hperiod hlate
    rw [hiff.mpr hlate]
    refine ⟨?_, hblocks.extend hlate, ?_⟩
    · rw [Nat.count_succ, if_pos hlate, ← hdelayed]
      rfl
    · rw [Nat.count_succ, ← hbacklog]
      by_cases hbehind : HasFullBacklog cycle n
      · rw [if_pos hbehind]
        exact if_pos (hfull.mpr hbehind)
      · rw [if_neg hbehind]
        exact if_neg (fun h => hbehind (hfull.mp h))
  · have hnone : ¬ HasFullBacklog cycle n := fun h => hlate h.delayed
    rw [eq_false_of_ne_true fun h => hlate (hiff.mp h)]
    refine ⟨?_, hblocks.close hlate, ?_⟩
    · rw [Nat.count_succ, if_neg hlate, ← hdelayed]
      rfl
    · rw [Nat.count_succ, if_neg hnone, ← hbacklog]
      rfl

theorem delays_statisticsAfter (hperiod : portable.period = 1) :
    Delays cycle n
      (statisticsAfter portable.toIControlScheduler cycle n : TimingStatistics K) := by
  induction n with
  | zero => exact ⟨rfl, blocks_zero _, rfl⟩
  | succ n ih =>
      have hupdate := ih.update hperiod
      rw [statisticsAfter, takeStatistics_eq]
      exact ⟨hupdate.delayed, hupdate.blocks, hupdate.backlog⟩

/-- The statistics of the misses after `n` cycles. -/
structure Misses (cycle : Nat → CycleReadings) (n : Nat) (s : TimingStatistics K) : Prop where
  deadline : s.deadlineMisses = Nat.count (Missed cycle) n
  scheduling : s.schedulingMisses = Nat.count (fun i => Missed cycle i ∧ ¬ Overran cycle i) n
  overran : s.executionMisses + s.combinedMisses =
    Nat.count (fun i => Missed cycle i ∧ Overran cycle i) n

theorem Misses.update (h : Misses cycle n s) :
    Misses cycle (n + 1) (updateMissStatistics (cycle n).actualEnd
      ((cycle n).scheduledStart + controlPeriod * 1000000)
      (PortableControlScheduler.schedulingDelay (cycle n).cycleStart (cycle n).scheduledStart)
      (toMilliseconds ((cycle n).actualEnd - (cycle n).cycleStart)) s) := by
  obtain ⟨hdeadline, hscheduling, hoverran⟩ := h
  have hlate : (0 : K) < PortableControlScheduler.schedulingDelay (cycle n).cycleStart
      (cycle n).scheduledStart ↔ (cycle n).scheduledStart < (cycle n).cycleStart := by
    rw [PortableControlScheduler.schedulingDelay, ← toMilliseconds_zero, toMilliseconds_lt,
      sub_pos]
  have hlong : (ofInt controlPeriod : K) <
      toMilliseconds ((cycle n).actualEnd - (cycle n).cycleStart) ↔ Overran cycle n := by
    rw [ofInt_controlPeriod, toMilliseconds_lt, Overran]
  unfold updateMissStatistics
  by_cases hmissed : Missed cycle n
  · rw [if_pos (show (cycle n).scheduledStart + controlPeriod * 1000000 < _ from hmissed)]
    simp only [hlate, hlong]
    by_cases hover : Overran cycle n
    · by_cases hdelayed : (cycle n).scheduledStart < (cycle n).cycleStart
      · rw [if_pos ⟨hdelayed, hover⟩]
        constructor <;>
          simp [Nat.count_succ, hmissed, hover, ← hdeadline, ← hscheduling, ← hoverran,
            Nat.add_assoc]
      · rw [if_neg (fun h => hdelayed h.1), if_neg hdelayed]
        constructor <;>
          simp [Nat.count_succ, hmissed, hover, ← hdeadline, ← hscheduling, ← hoverran]
        omega
    · -- A cycle that began on time and missed its deadline took longer than a period.
      have hdelayed : (cycle n).scheduledStart < (cycle n).cycleStart := by
        unfold Missed at hmissed
        unfold Overran at hover
        linarith
      rw [if_neg (fun h => hover h.2), if_pos hdelayed]
      constructor <;>
        simp [Nat.count_succ, hmissed, hover, ← hdeadline, ← hscheduling, ← hoverran]
  · rw [if_neg (show ¬ (cycle n).scheduledStart + controlPeriod * 1000000 < _ from hmissed)]
    constructor <;> simp [Nat.count_succ, hmissed, ← hdeadline, ← hscheduling, ← hoverran]

theorem misses_statisticsAfter :
    Misses cycle n
      (statisticsAfter portable.toIControlScheduler cycle n : TimingStatistics K) := by
  induction n with
  | zero => exact ⟨rfl, rfl, rfl⟩
  | succ n ih =>
      have hupdate := ih.update
      rw [statisticsAfter, takeStatistics_eq]
      exact ⟨hupdate.deadline, hupdate.scheduling, hupdate.overran⟩

/-! ## The whole history -/

/-- The average period lies between the shortest and the longest one. -/
theorem Periods.average_mem (h : Periods cycle n s) (hpos : 0 < n) :
    s.minPeriod ≤ averagePeriod (n + 1) s ∧ averagePeriod (n + 1) s ≤ s.maxPeriod := by
  have hcount : (0 : K) < n := by exact_mod_cast hpos
  have haverage : averagePeriod (n + 1) s = s.totalPeriod / n := by
    simp [averagePeriod, ofInt]
  have hleast : ∀ i ∈ Finset.range n, s.minPeriod ≤ toMilliseconds (period cycle i) := by
    intro i hi
    exact (h.least hpos).2 ⟨i, Finset.mem_range.mp hi, rfl⟩
  have hgreatest : ∀ i ∈ Finset.range n, toMilliseconds (period cycle i) ≤ s.maxPeriod := by
    intro i hi
    exact h.greatest.2 (.inr ⟨i, Finset.mem_range.mp hi, rfl⟩)
  have hlow := Finset.card_nsmul_le_sum _ _ _ hleast
  have hhigh := Finset.sum_le_card_nsmul _ _ _ hgreatest
  rw [Finset.card_range, nsmul_eq_mul, ← h.total_eq_sum] at hlow hhigh
  rw [haverage, le_div_iff₀ hcount, div_le_iff₀ hcount, mul_comm s.minPeriod,
    mul_comm s.maxPeriod]
  exact ⟨hlow, hhigh⟩

/-- No gap between two cycles is longer than the longest period. -/
theorem Gaps.max_le (hgaps : Gaps cycle n s) (hperiods : Periods cycle n s)
    (hend : ∀ i < n, (cycle i).cycleStart ≤ (cycle i).actualEnd) :
    s.maxInterCycleGap ≤ s.maxPeriod := by
  rcases hgaps.greatest.1 with hzero | ⟨i, hi, hgap⟩
  · rw [hzero]
    exact hperiods.greatest.2 (.inl rfl)
  · rw [← hgap]
    refine le_trans ?_ (hperiods.greatest.2 (.inr ⟨i, hi, rfl⟩))
    exact toMilliseconds_le.mpr (sub_le_sub_left (hend i hi) _)

/-- The timing statistics agree with the history.  For every number of cycles from two on,
and every sequence of cycles that follow one another: what the loop has accumulated, asking
the portable scheduler with a period of one millisecond, is what the readings of its cycles
say. -/
theorem statistics_agree_with_history (portable : PortableControlScheduler)
    (hperiod : portable.period = 1) (cycle : Nat → CycleReadings) (n : Nat) (hn : 2 ≤ n)
    (hend : ∀ i < n, (cycle i).cycleStart ≤ (cycle i).actualEnd)
    (hnext : ∀ i, i + 1 < n → (cycle i).actualEnd ≤ (cycle (i + 1)).cycleStart) :
    let s : TimingStatistics K := statisticsAfter portable.toIControlScheduler cycle n
    s.delayUnder100us + s.delay100usTo1ms + s.delay1msTo5ms + s.delay5msTo10ms +
        s.delayOver10ms = n ∧
      s.deadlineMisses = s.schedulingMisses + s.executionMisses + s.combinedMisses ∧
      s.deadlineMisses = Nat.count (Missed cycle) n ∧
      s.executionMisses + s.combinedMisses =
        Nat.count (fun i => Missed cycle i ∧ Overran cycle i) n ∧
      s.schedulingMisses = Nat.count (fun i => Missed cycle i ∧ ¬ Overran cycle i) n ∧
      IsGreatest {m | ∃ j, j + m ≤ n ∧ ∀ i, j ≤ i → i < j + m → Delayed cycle i}
        s.maxConsecutiveDelayedCycles ∧
      s.delayedCycles = Nat.count (Delayed cycle) n ∧
      s.backlogCycles = Nat.count (HasFullBacklog cycle) n ∧
      s.backlogCycles ≤ s.delayedCycles ∧
      s.totalPeriod = toMilliseconds ((cycle (n - 1)).cycleStart - (cycle 0).cycleStart) ∧
      s.minPeriod ≤ averagePeriod n s ∧ averagePeriod n s ≤ s.maxPeriod ∧
      IsLeast ((fun i => toMilliseconds (period cycle i)) '' Set.Iio (n - 1)) s.minPeriod ∧
      IsGreatest ((fun i => toMilliseconds (period cycle i)) '' Set.Iio (n - 1)) s.maxPeriod ∧
      IsGreatest ((fun i => toMilliseconds (interCycleGap cycle i)) '' Set.Iio (n - 1))
        s.maxInterCycleGap ∧
      s.maxInterCycleGap ≤ s.maxPeriod ∧
      IsLeast ((fun i => toMilliseconds (deadlineMargin cycle i)) '' Set.Iio n)
        s.minDeadlineMargin ∧
      s.processorChanges = changes (processors cycle n) := by
  obtain ⟨m, rfl⟩ : ∃ m, n = m + 1 + 1 := ⟨n - 2, by omega⟩
  intro s
  have hbalanced : Balanced (m + 1 + 1) s := balanced_statisticsAfter _ cycle _
  have hprocessors := processors_statisticsAfter (R := K) portable.toIControlScheduler cycle
    (m + 1 + 1)
  have hperiods : Periods cycle (m + 1) s := periods_statisticsAfter _ cycle _
  have hgaps : Gaps cycle (m + 1) s := gaps_statisticsAfter _ cycle _
  have hmargins := margins_statisticsAfter (K := K) portable.toIControlScheduler cycle (m + 1)
  have hdelays : Delays cycle (m + 1 + 1) s := delays_statisticsAfter hperiod
  have hmisses : Misses cycle (m + 1 + 1) s := misses_statisticsAfter
  have hgap : ∀ i < m + 1, (0 : K) ≤ toMilliseconds (interCycleGap cycle i) := by
    intro i hi
    rw [← toMilliseconds_zero, toMilliseconds_le]
    exact sub_nonneg.mpr (hnext i (by omega))
  have hnonneg : ∀ i < m + 1, (0 : K) ≤ toMilliseconds (period cycle i) := by
    intro i hi
    refine (hgap i hi).trans (toMilliseconds_le.mpr ?_)
    exact sub_le_sub_left (hend i (by omega)) _
  have hbacklog : s.backlogCycles ≤ s.delayedCycles := by
    rw [hdelays.backlog, hdelays.delayed]
    exact Nat.count_mono_left fun i _ hfull => hfull.delayed
  have haverage := hperiods.average_mem m.succ_pos
  have hgreatest := isGreatest_of_insert hperiods.greatest hnonneg
  exact ⟨hbalanced.delays, hbalanced.misses, hmisses.deadline, hmisses.overran,
    hmisses.scheduling, hdelays.blocks.isGreatest, hdelays.delayed, hdelays.backlog, hbacklog,
    hperiods.total, haverage.1, haverage.2, hperiods.least m.succ_pos, hgreatest,
    isGreatest_of_insert hgaps.greatest hgap,
    hgaps.max_le hperiods fun i hi => hend i (by omega), hmargins, hprocessors.1⟩

end Exact

/-- A cycle of half a millisecond every millisecond, on time but for the second, which
begins 0.8 milliseconds late. -/
def onceLate (i : Nat) : CycleReadings where
  processor := i % 2
  scheduledStart := i * 1000000
  cycleStart := if i = 1 then 1800000 else i * 1000000
  controlStart := i * 1000000
  controlEnd := i * 1000000
  snapshotStart := i * 1000000
  snapshotEnd := i * 1000000
  actualEnd := if i = 1 then 2300000 else i * 1000000 + 500000

/-- One scheduling miss, and no delayed cycle. -/
theorem statistics_of_once_late :
    let s : TimingStatistics ℚ := statisticsAfter (PortableControlScheduler.new 1
      0).toIControlScheduler onceLate 2
    s.deadlineMisses = 1 ∧ s.executionMisses + s.combinedMisses = 0 ∧ s.delayedCycles = 0 ∧
      s.processorChanges = 1 := by
  have hend : ∀ i < 2, (onceLate i).cycleStart ≤ (onceLate i).actualEnd := by decide
  have hnext : ∀ i, i + 1 < 2 → (onceLate i).actualEnd ≤ (onceLate (i + 1)).cycleStart := by
    intro i hi
    obtain rfl : i = 0 := by omega
    decide
  obtain ⟨-, -, hdeadline, hoverran, -, -, hdelayed, -, -, -, -, -, -, -, -, -, -, hchanges⟩ :=
    statistics_agree_with_history (K := ℚ) (PortableControlScheduler.new 1 0) rfl onceLate 2
      le_rfl hend hnext
  exact ⟨hdeadline.trans (by decide), hoverran.trans (by decide), hdelayed.trans (by decide),
    hchanges.trans (by decide)⟩

end ControlLoop

end RobotController.Control
