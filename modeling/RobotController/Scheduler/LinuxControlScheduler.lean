/-
  Scheduler/LinuxControlScheduler.lean --- absolute wake-up times on Linux.

  Sources: `scheduler/LinuxControlScheduler.hpp`, `scheduler/LinuxControlScheduler.cpp`.

  The scheduled start of a cycle is a time point of the steady clock; the operating
  system is given the same instant as a `timespec`.  The two clocks are tied together
  where the constructor reads both.
-/
import RobotController.Scheduler.PortableControlScheduler

set_option autoImplicit false

namespace RobotController.Scheduler

/-- `struct timespec`. -/
@[ext] structure Timespec where
  tvSec : Int
  tvNsec : Int
  deriving DecidableEq, Repr

namespace Timespec

/-- What the operating system accepts. -/
def Normalized (time : Timespec) : Prop := 0 ≤ time.tvNsec ∧ time.tvNsec < 1000000000

instance (time : Timespec) : Decidable time.Normalized :=
  inferInstanceAs (Decidable (_ ∧ _))

/-- The nanoseconds denoted. -/
def nanoseconds (time : Timespec) : Int := time.tvSec * 1000000000 + time.tvNsec

end Timespec

/-! ## Adding a duration -/

/-- `LinuxControlScheduler::addDuration`; the quotient and the remainder of C++
truncate. -/
def addDuration (time : Timespec) (duration : ClockDuration) : Timespec :=
  let total := duration
  let tvSec := time.tvSec + total.tdiv 1000000000
  let tvNsec := time.tvNsec + total.tmod 1000000000
  if 1000000000 ≤ tvNsec then ⟨tvSec + 1, tvNsec - 1000000000⟩ else ⟨tvSec, tvNsec⟩

/-- The instant is exact, whatever the signs. -/
theorem nanoseconds_addDuration (time : Timespec) (duration : ClockDuration) :
    (addDuration time duration).nanoseconds = time.nanoseconds + duration := by
  have hdivision := Int.tmod_add_mul_tdiv duration 1000000000
  simp only [addDuration, Timespec.nanoseconds]
  split_ifs <;> simp only <;> omega

/-- There is a carry but no borrow: the nanoseconds must outweigh a negative
remainder. -/
theorem normalized_addDuration_iff {time : Timespec} (h : time.Normalized)
    (duration : ClockDuration) :
    (addDuration time duration).Normalized ↔ 0 ≤ time.tvNsec + duration.tmod 1000000000 := by
  obtain ⟨hlow, hhigh⟩ := h
  have hmod := Int.tmod_lt_of_pos duration (b := 1000000000) (by decide)
  simp only [addDuration, Timespec.Normalized]
  split_ifs <;> simp only <;> omega

/-- The same for a duration that is `ahead` nanoseconds in the past. -/
theorem normalized_addDuration_neg_iff {time : Timespec} (h : time.Normalized) (ahead : Int) :
    (addDuration time (-ahead)).Normalized ↔
      ahead ≤ 0 ∨ ahead % 1000000000 ≤ time.tvNsec := by
  rw [normalized_addDuration_iff h]
  obtain ⟨hlow, -⟩ := h
  rcases le_or_gt ahead 0 with hnonneg | hneg
  · have hmod := Int.tmod_nonneg 1000000000 (a := -ahead) (by omega)
    exact iff_of_true (by omega) (.inl hnonneg)
  · have hmod : (-ahead).tmod 1000000000 = -(ahead % 1000000000) := by
      rw [Int.neg_tmod, Int.tmod_eq_emod_of_nonneg hneg.le]
    rw [hmod]
    omega

/-! ## The scheduler -/

/-- `class LinuxControlScheduler`: the timeline it inherits, `chrono_start_time_` and
`linux_start_time_`. -/
@[ext] structure LinuxControlScheduler extends PortableControlScheduler where
  chronoStartTime : TimePoint
  linuxStartTime : Timespec
  deriving DecidableEq, Repr

/-- `EINTR`. -/
def EINTR : Int := 4

/-- `EINVAL`. -/
def EINVAL : Int := 22

namespace LinuxControlScheduler

/-- The constructor: the base class reads the steady clock first, then the two clocks
are read together. -/
def new (period : Int) (baseNow chronoNow : TimePoint) (linuxNow : Timespec) :
    LinuxControlScheduler where
  toPortableControlScheduler := .new period baseNow
  chronoStartTime := chronoNow
  linuxStartTime := linuxNow

/-- The `target` of `waitForNextCycle`. -/
def target (s : LinuxControlScheduler) : Timespec :=
  addDuration s.linuxStartTime (s.scheduledCycle - s.chronoStartTime)

/-- The loop around `clock_nanosleep`, given what its calls return one after the other;
nothing is returned as long as all of them are interrupted. -/
def sleep : List Int → Option (Except String Unit)
  | [] => none
  | result :: rest =>
      if result = 0 then some (.ok ())
      else if result ≠ EINTR then some (.error "clock_nanosleep failed")
      else sleep rest

/-- `LinuxControlScheduler::waitForNextCycle`. -/
def waitForNextCycle (s : LinuxControlScheduler) (results : List Int) :
    Option (Except String (TimePoint × LinuxControlScheduler)) :=
  let scheduledStart := s.scheduledCycle
  (sleep results).map fun slept => slept.map fun _ =>
    (scheduledStart, { s with toPortableControlScheduler := s.advanceSchedule })

/-- What `clock_nanosleep` returns for a target: `EINVAL` for an invalid one, and
otherwise it sleeps until then or is interrupted. -/
def Answers (target : Timespec) (results : List Int) : Prop :=
  ∀ result ∈ results, (¬ target.Normalized → result = EINVAL) ∧
    (target.Normalized → result = 0 ∨ result = EINTR)

/-- The scheduler at cycle `k`. -/
def atCycle (s : LinuxControlScheduler) (k : Nat) : LinuxControlScheduler :=
  { s with
    toPortableControlScheduler :=
      PortableControlScheduler.advanceSchedule^[k] s.toPortableControlScheduler }

/-- A wait that returns leads from one cycle to the next. -/
theorem atCycle_of_waitForNextCycle {s s' : LinuxControlScheduler} {k : Nat}
    {results : List Int} {scheduledStart : TimePoint}
    (h : (s.atCycle k).waitForNextCycle results = some (.ok (scheduledStart, s'))) :
    scheduledStart = (s.atCycle k).scheduledCycle ∧ s' = s.atCycle (k + 1) := by
  obtain ⟨slept, -, hslept⟩ := Option.map_eq_some_iff.mp h
  cases slept with
  | error message => simp [Except.map] at hslept
  | ok _ =>
      simp only [Except.map, Except.ok.injEq, Prod.mk.injEq] at hslept
      refine ⟨hslept.1.symm, ?_⟩
      rw [← hslept.2]
      unfold atCycle
      rw [Function.iterate_succ_apply']

theorem sleep_ne_error {results : List Int} {message : String}
    (h : ∀ result ∈ results, result = 0 ∨ result = EINTR) :
    sleep results ≠ some (.error message) := by
  induction results with
  | nil => simp [sleep]
  | cons result rest ih =>
      rw [List.forall_mem_cons] at h
      rcases h.1 with rfl | rfl
      · simp [sleep]
      · simpa [sleep, EINTR] using ih h.2

/-- A wait throws for a target that is not valid, and for no other. -/
theorem throws_iff (s : LinuxControlScheduler) :
    (∀ results, Answers s.target results → ∀ message,
      s.waitForNextCycle results ≠ some (.error message)) ↔ s.target.Normalized := by
  constructor
  · intro h
    by_contra hinvalid
    have hanswers : Answers s.target [EINVAL] := by
      intro result hresult
      obtain rfl := List.mem_singleton.mp hresult
      exact ⟨fun _ => rfl, fun hvalid => absurd hvalid hinvalid⟩
    exact h [EINVAL] hanswers "clock_nanosleep failed" rfl
  · intro hvalid results hanswers message hthrows
    obtain ⟨slept, hsleep, hslept⟩ := Option.map_eq_some_iff.mp hthrows
    cases slept with
    | ok _ => simp [Except.map] at hslept
    | error found => exact sleep_ne_error (fun r hr => (hanswers r hr).2 hvalid) hsleep

theorem elapsed_atCycle (period : Int) (baseNow chronoNow : TimePoint) (linuxNow : Timespec)
    (k : Nat) :
    ((new period baseNow chronoNow linuxNow).atCycle k).scheduledCycle - chronoNow =
      -(chronoNow - baseNow - k * (period * 1000000)) := by
  simp only [atCycle, new, PortableControlScheduler.iterate_advanceSchedule,
    PortableControlScheduler.scheduledCycle, PortableControlScheduler.periodDuration,
    PortableControlScheduler.new]
  ring

/-- When the wake-up time of cycle `k` is a valid `timespec`.  It always denotes exactly
the start time plus the duration.  It is normalized, and the wait does not throw, if and
only if the duration is not negative or the start nanoseconds are at least the fraction
of a second by which it is negative. -/
theorem target_valid_iff (period : Int) (baseNow chronoNow : TimePoint) (linuxNow : Timespec)
    (k : Nat) (hstart : linuxNow.Normalized) :
    let scheduler := new period baseNow chronoNow linuxNow
    let s := scheduler.atCycle k
    let duration := s.scheduledCycle - s.chronoStartTime
    let ahead := chronoNow - baseNow - k * (period * 1000000)
    (∀ results scheduledStart s', s.waitForNextCycle results = some (.ok (scheduledStart, s')) →
      scheduledStart = s.scheduledCycle ∧ s' = scheduler.atCycle (k + 1)) ∧
    (s.target.Normalized ∧
        s.target.nanoseconds = linuxNow.nanoseconds + duration ∧
        (∀ results, Answers s.target results → ∀ message,
          s.waitForNextCycle results ≠ some (.error message)) ↔
      ahead ≤ 0 ∨ ahead % 1000000000 ≤ linuxNow.tvNsec) := by
  intro scheduler s duration ahead
  have hexact : s.target.nanoseconds = linuxNow.nanoseconds + duration :=
    nanoseconds_addDuration linuxNow duration
  have hduration : duration = -ahead := elapsed_atCycle period baseNow chronoNow linuxNow k
  have hvalid : s.target.Normalized ↔ ahead ≤ 0 ∨ ahead % 1000000000 ≤ linuxNow.tvNsec := by
    rw [← normalized_addDuration_neg_iff hstart, ← hduration]
    rfl
  refine ⟨fun _ _ _ => atCycle_of_waitForNextCycle, ?_⟩
  rw [throws_iff, ← hvalid]
  exact ⟨fun h => h.1, fun h => ⟨h, hexact, h⟩⟩

/-- Started half a second into a second, with the clocks a microsecond apart. -/
theorem target_valid_half :
    ((new 1 0 1000 ⟨5, 500000000⟩).atCycle 0).target.Normalized :=
  ((target_valid_iff 1 0 1000 ⟨5, 500000000⟩ 0 (by decide)).2.mpr (by decide)).1

/-- Started at the beginning of a second, with the clocks a nanosecond apart: the first
wake-up time is not a valid `timespec`, and the first wait throws. -/
theorem target_invalid_at_second :
    let s := (new 1 0 1 ⟨5, 0⟩).atCycle 0
    (⟨5, 0⟩ : Timespec).Normalized ∧ ¬ s.target.Normalized ∧ s.target = ⟨5, -1⟩ ∧
      s.waitForNextCycle [EINVAL] = some (.error "clock_nanosleep failed") := by
  decide

end LinuxControlScheduler

end RobotController.Scheduler
