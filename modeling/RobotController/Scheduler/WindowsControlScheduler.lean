/-
  Scheduler/WindowsControlScheduler.lean --- a timer, then a busy wait.

  Sources: `scheduler/WindowsControlScheduler.hpp`, `scheduler/WindowsControlScheduler.cpp`.

  The scheduler sleeps on a waitable timer until shortly before the scheduled start and
  spins on the clock for the rest.  What the operating system and the clock answer during
  one wait is an argument.
-/
import RobotController.Scheduler.PortableControlScheduler
import Mathlib.Algebra.Order.Ring.Int

set_option autoImplicit false

namespace RobotController.Scheduler

open RobotController.Foundation

/-- `WAIT_OBJECT_0`. -/
def WAIT_OBJECT_0 : Nat := 0

/-- `WindowsControlScheduler::spin_window_`. -/
def spinWindow : ClockDuration := 100000

/-- `WindowsControlScheduler::toWindows100ns`; `duration_cast` truncates. -/
def toWindows100ns (duration : ClockDuration) : Int := duration.tdiv 100

/-- `class WindowsControlScheduler`: the timeline it inherits and `max_wake_lateness_`. -/
@[ext] structure WindowsControlScheduler (R : Type) extends PortableControlScheduler where
  maxWakeLateness : R

/-- What one wait is answered: the first reading of the clock, whether the timer could be
set, what waiting for it returns, the clock afterwards, and the readings of the busy wait. -/
structure WindowsAnswers where
  now : TimePoint
  timerSet : Bool
  waitResult : Nat
  wakeTime : TimePoint
  readings : List TimePoint
  deriving DecidableEq, Repr

namespace WindowsControlScheduler

variable {R : Type}

/-- The loop `while (Clock::now() < scheduled_start)`: the reading that ends it. -/
def spin (scheduledStart : TimePoint) : List TimePoint → Option TimePoint
  | [] => none
  | reading :: rest => if reading < scheduledStart then spin scheduledStart rest else some reading

/-- The due time given to the timer, in units of 100 ns and negative as relative times are;
there is none when the start is too near. -/
def dueTime (s : WindowsControlScheduler R) (now : TimePoint) : Option Int :=
  if spinWindow < s.scheduledCycle - now then
    some (-toWindows100ns (s.scheduledCycle - now - spinWindow))
  else none

section Members

variable [Double R] [IntConversion R]

/-- The constructor, when the clock reads `now` and the timer could be created or not. -/
def new (period : Int) (now : TimePoint) (timerCreated : Bool) :
    Except String (WindowsControlScheduler R) :=
  if timerCreated then .ok { toPortableControlScheduler := .new period now, maxWakeLateness := 0 }
  else .error "Failed to create Windows waitable timer"

/-- `wake_lateness_ms`. -/
def wakeLateness (s : WindowsControlScheduler R) (wakeTime : TimePoint) : R :=
  toMilliseconds (wakeTime - s.scheduledCycle)

/-- The maximum is raised to the lateness of a wake-up. -/
def noteWake (s : WindowsControlScheduler R) (wakeTime : TimePoint) : WindowsControlScheduler R :=
  if s.maxWakeLateness < s.wakeLateness wakeTime then
    { s with maxWakeLateness := s.wakeLateness wakeTime }
  else s

/-- The end of `waitForNextCycle`. -/
def finishWait (s : WindowsControlScheduler R) (readings : List TimePoint) :
    Option (Except String TimePoint × WindowsControlScheduler R) :=
  (spin s.scheduledCycle readings).map fun _ =>
    (.ok s.scheduledCycle, { s with toPortableControlScheduler := s.advanceSchedule })

/-- `WindowsControlScheduler::waitForNextCycle`: what it returns or throws, and the scheduler
afterwards; nothing as long as the busy wait goes on. -/
def waitForNextCycle (s : WindowsControlScheduler R) (answers : WindowsAnswers) :
    Option (Except String TimePoint × WindowsControlScheduler R) :=
  if answers.now < s.scheduledCycle then
    match s.dueTime answers.now with
    | some _ =>
        if answers.timerSet = false then
          some (.error "Failed to set Windows waitable timer", s)
        else if answers.waitResult ≠ WAIT_OBJECT_0 then
          some (.error "Windows waitable timer failed", s)
        else (s.noteWake answers.wakeTime).finishWait answers.readings
    | none => s.finishWait answers.readings
  else
    some (.ok s.scheduledCycle, { s with toPortableControlScheduler := s.advanceSchedule })

end Members

/-! ## The busy wait -/

theorem le_of_spin {scheduledStart reading : TimePoint} :
    ∀ {readings : List TimePoint}, spin scheduledStart readings = some reading →
      scheduledStart ≤ reading ∧ reading ∈ readings := by
  intro readings
  induction readings with
  | nil => simp [spin]
  | cons first rest ih =>
      intro h
      unfold spin at h
      split_ifs at h with hearly
      · exact (ih h).imp_right (List.mem_cons_of_mem first)
      · obtain rfl := Option.some.inj h
        exact ⟨not_lt.mp hearly, List.mem_cons_self⟩

theorem toWindows100ns_bounds {duration : Int} (h : 0 ≤ duration) :
    0 ≤ toWindows100ns duration ∧ 100 * toWindows100ns duration ≤ duration ∧
      duration < 100 * toWindows100ns duration + 100 := by
  have hdivision := Int.tmod_add_mul_tdiv duration 100
  have hlow := Int.tmod_nonneg 100 h
  have hhigh := Int.tmod_lt_of_pos duration (b := 100) (by decide)
  have hquotient : 0 ≤ duration.tdiv 100 := Int.tdiv_nonneg h (by decide)
  unfold toWindows100ns
  omega

/-- The timer is never set for later than the spin window before the scheduled start, and
for at most 100 ns before that: its due time is a relative one, or zero. -/
theorem dueTime_bounds {s : WindowsControlScheduler R} {now : TimePoint} {due : Int}
    (h : s.dueTime now = some due) :
    due ≤ 0 ∧ now - 100 * due ≤ s.scheduledCycle - spinWindow ∧
      s.scheduledCycle - spinWindow < now - 100 * due + 100 := by
  unfold dueTime at h
  split_ifs at h with hfar
  obtain rfl := Option.some.inj h
  have hsleep : 0 ≤ s.scheduledCycle - now - spinWindow := by linarith
  obtain ⟨hnonneg, hle, hlt⟩ := toWindows100ns_bounds hsleep
  refine ⟨?_, ?_, ?_⟩ <;> linarith

section Waits

variable [Double R] [IntConversion R] {s s' : WindowsControlScheduler R} {answers : WindowsAnswers}

@[simp] theorem toPortable_noteWake (s : WindowsControlScheduler R) (wakeTime : TimePoint) :
    (s.noteWake wakeTime).toPortableControlScheduler = s.toPortableControlScheduler := by
  unfold noteWake
  split <;> rfl

omit [Double R] [IntConversion R] in
theorem finishWait_cases {outcome : Except String TimePoint} {readings : List TimePoint}
    (h : s.finishWait readings = some (outcome, s')) :
    outcome = .ok s.scheduledCycle ∧
      s' = { s with toPortableControlScheduler := s.advanceSchedule } ∧
      ∃ reading ∈ readings, s.scheduledCycle ≤ reading := by
  obtain ⟨reading, hspin, hfinished⟩ := Option.map_eq_some_iff.mp h
  obtain ⟨rfl, rfl⟩ := Prod.mk.inj hfinished
  obtain ⟨hle, hmem⟩ := le_of_spin hspin
  exact ⟨rfl, rfl, reading, hmem, hle⟩

/-- What a wait is: it throws and changes nothing, or it returns the scheduled start once a
reading of the clock has shown that it has come, and advances the timeline. -/
theorem waitForNextCycle_cases {outcome : Except String TimePoint}
    (h : s.waitForNextCycle answers = some (outcome, s')) :
    ((∃ message, outcome = .error message) ∧ s' = s) ∨
      (outcome = .ok s.scheduledCycle ∧
        s'.toPortableControlScheduler = s.toPortableControlScheduler.advanceSchedule ∧
        ∃ reading ∈ answers.now :: answers.readings, s.scheduledCycle ≤ reading) := by
  unfold waitForNextCycle at h
  by_cases hearly : answers.now < s.scheduledCycle
  · rw [if_pos hearly] at h
    cases hdue : s.dueTime answers.now with
    | none =>
        rw [hdue] at h
        obtain ⟨hok, rfl, reading, hmem, hle⟩ := finishWait_cases h
        exact .inr ⟨hok, rfl, reading, List.mem_cons_of_mem _ hmem, hle⟩
    | some due =>
        rw [hdue] at h
        dsimp only at h
        split_ifs at h with hset hresult
        · obtain ⟨rfl, rfl⟩ := Prod.mk.inj (Option.some.inj h)
          exact .inl ⟨⟨_, rfl⟩, rfl⟩
        · obtain ⟨rfl, rfl⟩ := Prod.mk.inj (Option.some.inj h)
          exact .inl ⟨⟨_, rfl⟩, rfl⟩
        · obtain ⟨hok, rfl, reading, hmem, hle⟩ := finishWait_cases h
          simp only [toPortable_noteWake] at hok hle ⊢
          exact .inr ⟨hok, trivial, reading, List.mem_cons_of_mem _ hmem, hle⟩
  · rw [if_neg hearly] at h
    obtain ⟨rfl, rfl⟩ := Prod.mk.inj (Option.some.inj h)
    exact .inr ⟨rfl, rfl, answers.now, List.mem_cons_self, not_lt.mp hearly⟩

end Waits

end WindowsControlScheduler

end RobotController.Scheduler
