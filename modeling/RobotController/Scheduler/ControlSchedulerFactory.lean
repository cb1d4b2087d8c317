/-
  Scheduler/ControlSchedulerFactory.lean --- one timeline on every platform.

  Sources: `scheduler/ControlSchedulerFactory.cpp`, `scheduler/PortableControlScheduler.cpp`,
  `scheduler/LinuxControlScheduler.cpp`, `scheduler/WindowsControlScheduler.cpp`.

  The three schedulers wait in three ways: by `sleep_until`, by `clock_nanosleep` until an
  absolute time and again after every interruption, and by a timer with a busy wait after
  it.  Seen from the control loop each is the same timeline, which a wait either advances by
  one period or, when it throws, leaves where it is.
-/
import RobotController.Foundation.Execution
import RobotController.Scheduler.LinuxControlScheduler
import RobotController.Scheduler.WindowsControlScheduler
import Mathlib.Data.Rat.Floor

set_option autoImplicit false

namespace RobotController.Scheduler

open RobotController.Foundation

/-! ## What a scheduler is for -/

/-- What the control loop sees of a scheduler. -/
inductive SchedulerEvent where
  /-- a wait returns `scheduledStart` at a time -/
  | started (scheduledStart returnedAt : TimePoint)
  /-- a wait throws -/
  | failed (message : String)
  | reset (now : TimePoint)
  deriving DecidableEq, Repr

/-- The scheduled start of a wait that returns. -/
def SchedulerEvent.start : SchedulerEvent → Option TimePoint
  | .started scheduledStart _ => some scheduledStart
  | _ => none

/-- The event is a reset. -/
def SchedulerEvent.isReset : SchedulerEvent → Bool
  | .reset _ => true
  | _ => false

/-- A timeline: where it starts, its period, and how many cycles have been started on it. -/
structure Timeline where
  origin : TimePoint
  period : ClockDuration
  started : Nat

namespace Timeline

variable {t t' : Timeline} {trace : List SchedulerEvent}

/-- When the next cycle is due. -/
def due (t : Timeline) : TimePoint := t.origin + t.started * t.period

/-- The steps of a timeline: a cycle is started when it is due, and not before; what fails
changes nothing. -/
inductive Step : Timeline → SchedulerEvent → Timeline → Prop where
  | started {t : Timeline} {returnedAt : TimePoint} :
      t.due ≤ returnedAt → Step t (.started t.due returnedAt) { t with started := t.started + 1 }
  | failed {t : Timeline} {message : String} : Step t (.failed message) t
  | reset {t : Timeline} {now : TimePoint} :
      Step t (.reset now) { t with origin := now, started := 0 }

/-- The period is kept, and the cycles between resets are started one after the other. -/
theorem started_of_execution (h : Execution Step t trace t') :
    (∀ event ∈ trace, event.isReset = false) →
      t'.origin = t.origin ∧ t'.period = t.period ∧
      t'.started = t.started + (trace.filterMap SchedulerEvent.start).length ∧
      trace.filterMap SchedulerEvent.start =
        (List.range' t.started (trace.filterMap SchedulerEvent.start).length).map
          fun (j : Nat) => t.origin + j * t.period := by
  induction h with
  | refl t => exact fun _ => ⟨rfl, rfl, rfl, rfl⟩
  | cons hstep _ ih =>
      intro hresets
      rw [List.forall_mem_cons] at hresets
      obtain ⟨horigin, hperiod, hstarted, hstarts⟩ := ih hresets.2
      cases hstep with
      | started _ =>
          rw [List.filterMap_cons_some (f := SchedulerEvent.start) rfl, List.length_cons]
          refine ⟨horigin, hperiod, ?_, ?_⟩
          · rw [hstarted]
            dsimp only
            omega
          · rw [List.range'_succ, List.map_cons]
            exact congrArg _ hstarts
      | failed =>
          rw [List.filterMap_cons_none (f := SchedulerEvent.start) rfl]
          exact ⟨horigin, hperiod, hstarted, hstarts⟩
      | reset => cases hresets.1

theorem period_of_execution (h : Execution Step t trace t') : t'.period = t.period := by
  induction h with
  | refl t => rfl
  | cons hstep _ ih =>
      rw [ih]
      cases hstep <;> rfl

/-- No cycle is started early. -/
theorem not_early (h : Execution Step t trace t') {scheduledStart returnedAt : TimePoint}
    (hmem : .started scheduledStart returnedAt ∈ trace) : scheduledStart ≤ returnedAt := by
  induction h with
  | refl t => exact absurd hmem List.not_mem_nil
  | cons hstep _ ih =>
      rcases List.mem_cons.mp hmem with heq | hrest
      · subst heq
        cases hstep with
        | started hdue => exact hdue
      · exact ih hrest

end Timeline

/-! ## The schedulers -/

/-- The platform the program is compiled for. -/
inductive Platform where
  | windows
  | linux
  | other
  deriving DecidableEq, Repr

/-- The scheduler behind `IControlScheduler`. -/
inductive ControlScheduler (R : Type) where
  | windows (scheduler : WindowsControlScheduler R)
  | linux (scheduler : LinuxControlScheduler)
  | portable (scheduler : PortableControlScheduler)

/-- What the constructors read: the steady clock in the base class and again on Linux,
`CLOCK_MONOTONIC` if it can be read, and whether the timer could be created. -/
structure Construction where
  baseNow : TimePoint
  chronoNow : TimePoint
  linuxNow : Option Timespec
  timerCreated : Bool

/-- What one wait is answered: what the calls of `clock_nanosleep` return, what Windows
answers, and the time at which the wait returns. -/
structure WaitAnswers where
  results : List Int
  windows : WindowsAnswers
  returnedAt : TimePoint

section Schedulers

variable {R : Type} [Double R] [IntConversion R]

/-- `createControlScheduler`. -/
def createControlScheduler (platform : Platform) (period : Int) (readings : Construction) :
    Except String (ControlScheduler R) :=
  match platform with
  | .windows => (WindowsControlScheduler.new period readings.baseNow readings.timerCreated).map .windows
  | .linux =>
      match readings.linuxNow with
      | some linuxNow => .ok (.linux (.new period readings.baseNow readings.chronoNow linuxNow))
      | none => .error "Failed to read CLOCK_MONOTONIC"
  | .other => .ok (.portable (.new period readings.baseNow))

namespace ControlScheduler

omit [Double R] [IntConversion R] in
/-- The timeline a scheduler inherits. -/
def base : ControlScheduler R → PortableControlScheduler
  | .windows scheduler => scheduler.toPortableControlScheduler
  | .linux scheduler => scheduler.toPortableControlScheduler
  | .portable scheduler => scheduler

/-- `IControlScheduler::reset`. -/
def reset (s : ControlScheduler R) (now : TimePoint) : ControlScheduler R :=
  match s with
  | .windows scheduler => .windows
      { scheduler with toPortableControlScheduler := scheduler.toPortableControlScheduler.reset now }
  | .linux scheduler => .linux
      { scheduler with toPortableControlScheduler := scheduler.toPortableControlScheduler.reset now }
  | .portable scheduler => .portable (scheduler.reset now)

/-- `IControlScheduler::waitForNextCycle`: what it returns or throws, and the scheduler
afterwards; nothing as long as it does not return. -/
def waitForNextCycle (s : ControlScheduler R) (answers : WaitAnswers) :
    Option (Except String TimePoint × ControlScheduler R) :=
  match s with
  | .windows scheduler =>
      (scheduler.waitForNextCycle answers.windows).map fun after => (after.1, .windows after.2)
  | .linux scheduler =>
      (scheduler.waitForNextCycle answers.results).map fun
        | .ok (scheduledStart, after) => (.ok scheduledStart, .linux after)
        | .error message => (.error message, .linux scheduler)
  | .portable scheduler =>
      some (.ok scheduler.waitForNextCycle.1, .portable scheduler.waitForNextCycle.2)

/-- What the platform promises about a wait: `sleep_until` does not return early; a call of
`clock_nanosleep` returns zero only when `CLOCK_MONOTONIC`, which is `offset` ahead of the
steady clock, has reached the target; and the steady clock does not go backwards. -/
def Promised (offset : Int) (s : ControlScheduler R) (answers : WaitAnswers) : Prop :=
  match s with
  | .windows _ =>
      ∀ reading ∈ answers.windows.now :: answers.windows.readings, reading ≤ answers.returnedAt
  | .linux scheduler =>
      0 ∈ answers.results → scheduler.target.nanoseconds ≤ answers.returnedAt + offset
  | .portable scheduler => scheduler.nextCycle ≤ answers.returnedAt

/-- The two clocks were tied together in the order in which the constructor reads them. -/
def Tied (offset : Int) : ControlScheduler R → Prop
  | .linux scheduler => scheduler.chronoStartTime + offset ≤ scheduler.linuxStartTime.nanoseconds
  | _ => True

/-- The calls of a scheduler. -/
inductive Step (offset : Int) : ControlScheduler R → SchedulerEvent → ControlScheduler R → Prop
  where
  | returns {s s' : ControlScheduler R} {answers : WaitAnswers} {scheduledStart : TimePoint} :
      s.waitForNextCycle answers = some (.ok scheduledStart, s') → s.Promised offset answers →
      Step offset s (.started scheduledStart answers.returnedAt) s'
  | throws {s s' : ControlScheduler R} {answers : WaitAnswers} {message : String} :
      s.waitForNextCycle answers = some (.error message, s') → Step offset s (.failed message) s'
  | resets {s : ControlScheduler R} {now : TimePoint} : Step offset s (.reset now) (s.reset now)

end ControlScheduler

end Schedulers

/-! ## One wait -/

theorem LinuxControlScheduler.mem_of_sleep {results : List Int}
    (h : LinuxControlScheduler.sleep results = some (.ok ())) : 0 ∈ results := by
  induction results with
  | nil => cases h
  | cons result rest ih =>
      unfold LinuxControlScheduler.sleep at h
      split_ifs at h with hzero hfailed
      · exact hzero ▸ List.mem_cons_self
      · cases (Option.some.inj h)
      · exact List.mem_cons_of_mem _ (ih h)

namespace ControlScheduler

variable {R : Type} [Double R] [IntConversion R] {s s' : ControlScheduler R} {offset : Int}
  {answers : WaitAnswers}

omit [Double R] [IntConversion R] in
theorem base_reset (s : ControlScheduler R) (now : TimePoint) :
    (s.reset now).base = s.base.reset now := by
  cases s <;> rfl

/-- A wait throws and changes nothing, or returns the scheduled start and advances the
timeline. -/
theorem waitForNextCycle_cases (offset : Int) {outcome : Except String TimePoint}
    (h : s.waitForNextCycle answers = some (outcome, s')) :
    ((∃ message, outcome = .error message) ∧ s' = s) ∨
      (outcome = .ok s.base.nextCycle ∧ s'.base = s.base.advanceSchedule ∧
        (s.Tied offset → s'.Tied offset) ∧
        (s.Tied offset → s.Promised offset answers → s.base.nextCycle ≤ answers.returnedAt)) := by
  cases s with
  | windows scheduler =>
      obtain ⟨⟨found, after⟩, hwait, heq⟩ := Option.map_eq_some_iff.mp h
      obtain ⟨rfl, rfl⟩ := Prod.mk.inj heq
      rcases WindowsControlScheduler.waitForNextCycle_cases hwait with
        ⟨herror, rfl⟩ | ⟨hok, hbase, reading, hmem, hle⟩
      · exact .inl ⟨herror, rfl⟩
      · exact .inr ⟨hok, hbase, id, fun _ hpromised => hle.trans (hpromised reading hmem)⟩
  | linux scheduler =>
      obtain ⟨found, hwait, heq⟩ := Option.map_eq_some_iff.mp h
      obtain ⟨slept, hsleep, hslept⟩ := Option.map_eq_some_iff.mp hwait
      cases slept with
      | error message =>
          obtain rfl : Except.error message = found := hslept
          obtain ⟨rfl, rfl⟩ := Prod.mk.inj heq
          exact .inl ⟨⟨message, rfl⟩, rfl⟩
      | ok _ =>
          obtain rfl : Except.ok _ = found := hslept
          obtain ⟨rfl, rfl⟩ := Prod.mk.inj heq
          refine .inr ⟨rfl, rfl, id, fun htied hpromised => ?_⟩
          have hreached := hpromised (LinuxControlScheduler.mem_of_sleep hsleep)
          rw [LinuxControlScheduler.target, nanoseconds_addDuration] at hreached
          change scheduler.chronoStartTime + offset ≤ _ at htied
          change scheduler.nextCycle ≤ answers.returnedAt
          change scheduler.linuxStartTime.nanoseconds +
            (scheduler.nextCycle - scheduler.chronoStartTime) ≤ _ at hreached
          linarith
  | portable scheduler =>
      obtain ⟨rfl, rfl⟩ := Prod.mk.inj (Option.some.inj h)
      exact .inr ⟨rfl, rfl, id, fun _ hpromised => hpromised⟩

/-- The scheduler is at a point of the timeline. -/
structure At (offset : Int) (s : ControlScheduler R) (t : Timeline) : Prop where
  due : s.base.nextCycle = t.due
  period : s.base.periodDuration = t.period
  tied : s.Tied offset

/-- Every scheduler is a timeline. -/
theorem At.step {t : Timeline} {event : SchedulerEvent} (h : s.At offset t)
    (hstep : Step offset s event s') : ∃ t', Timeline.Step t event t' ∧ s'.At offset t' := by
  obtain ⟨hdue, hperiod, htied⟩ := h
  cases hstep with
  | returns hwait hpromised =>
      rcases waitForNextCycle_cases offset hwait with
        ⟨⟨_, heq⟩, -⟩ | ⟨hok, hbase, hkeeps, hreached⟩
      · cases heq
      · obtain rfl := Except.ok.inj hok
        rw [hdue] at hreached ⊢
        refine ⟨_, .started (hreached htied hpromised), ?_, ?_, hkeeps htied⟩
        · rw [hbase]
          simp only [PortableControlScheduler.advanceSchedule, hdue, hperiod, Timeline.due]
          push_cast
          ring
        · rw [hbase]
          exact hperiod
  | throws hwait =>
      rcases waitForNextCycle_cases offset hwait with ⟨-, rfl⟩ | ⟨heq, -⟩
      · exact ⟨t, .failed, hdue, hperiod, htied⟩
      · cases heq
  | resets =>
      refine ⟨_, .reset, ?_, ?_, ?_⟩
      · rw [base_reset]
        simp [Timeline.due, PortableControlScheduler.reset]
      · rw [base_reset]
        exact hperiod
      · cases s <;> exact htied

theorem At.execution {t : Timeline} {trace : List SchedulerEvent}
    (hexec : Execution (Step offset) s trace s') (h : s.At offset t) :
    ∃ t', Execution Timeline.Step t trace t' ∧ s'.At offset t' :=
  hexec.simulate (fun _ _ _ _ hat hstep => hat.step hstep) h

omit [IntConversion R] in
theorem at_createControlScheduler {platform : Platform} {period : Int} {readings : Construction}
    (h : createControlScheduler platform period readings = .ok s)
    (htied : ∀ linuxNow, readings.linuxNow = some linuxNow →
      readings.chronoNow + offset ≤ linuxNow.nanoseconds) :
    s.At offset ⟨readings.baseNow, period * 1000000, 0⟩ := by
  have hstart : ∀ {base : PortableControlScheduler}, base = .new period readings.baseNow →
      base.nextCycle = Timeline.due ⟨readings.baseNow, period * 1000000, 0⟩ ∧
        base.periodDuration = period * 1000000 := by
    rintro base rfl
    exact ⟨by simp [Timeline.due, PortableControlScheduler.new], rfl⟩
  cases platform with
  | windows =>
      unfold createControlScheduler WindowsControlScheduler.new at h
      cases hcreated : readings.timerCreated with
      | false => simp [hcreated, Except.map] at h
      | true =>
          rw [hcreated] at h
          obtain rfl := Except.ok.inj h
          obtain ⟨hdue, hperiod⟩ := hstart rfl
          exact ⟨hdue, hperiod, trivial⟩
  | linux =>
      unfold createControlScheduler at h
      cases hread : readings.linuxNow with
      | none => simp [hread] at h
      | some linuxNow =>
          rw [hread] at h
          obtain rfl := Except.ok.inj h
          obtain ⟨hdue, hperiod⟩ := hstart rfl
          exact ⟨hdue, hperiod, htied linuxNow hread⟩
  | other =>
      obtain rfl := Except.ok.inj h
      obtain ⟨hdue, hperiod⟩ := hstart rfl
      exact ⟨hdue, hperiod, trivial⟩

theorem nextCycle_of_reset {front : List SchedulerEvent} {now : TimePoint}
    (h : Execution (Step offset) s (front ++ [.reset now]) s') : s'.base.nextCycle = now := by
  generalize htrace : front ++ [.reset now] = trace at h
  induction h generalizing front with
  | refl s => exact absurd htrace (by simp)
  | @cons s t u event rest hstep hrest ih =>
      cases front with
      | nil =>
          obtain ⟨rfl, rfl⟩ := List.cons.inj htrace
          cases hrest
          cases hstep
          rw [base_reset]
          rfl
      | cons first front =>
          obtain ⟨-, hrest'⟩ := List.cons.inj htrace
          exact ih hrest'

/-- Every platform has the same timeline.  Whatever waits and resets a new scheduler has been
through, including waits that have thrown: from its next scheduled start on, and until it is
reset, the waits that return do so with that start and one period after the other, none is
skipped or repeated, and no cycle starts early; a wait that throws changes nothing.  The
first start is the construction of the scheduler or its last reset. -/
theorem timeline_followed {platform : Platform} {period : Int} {readings : Construction}
    {s₁ s₂ : ControlScheduler R} {front back : List SchedulerEvent}
    (hcreate : createControlScheduler platform period readings = .ok s)
    (htied : ∀ linuxNow, readings.linuxNow = some linuxNow →
      readings.chronoNow + offset ≤ linuxNow.nanoseconds)
    (hfront : Execution (Step offset) s front s₁) (hback : Execution (Step offset) s₁ back s₂)
    (hresets : ∀ event ∈ back, event.isReset = false) :
    let starts := back.filterMap SchedulerEvent.start
    let next := s₁.base.nextCycle
    starts = (List.range starts.length).map (fun (j : Nat) => next + j * (period * 1000000)) ∧
    s₂.base.nextCycle = next + starts.length * (period * 1000000) ∧
    (∀ scheduledStart returnedAt, .started scheduledStart returnedAt ∈ back →
      scheduledStart ≤ returnedAt) ∧
    (∀ message s₃, Step offset s₂ (.failed message) s₃ → s₃ = s₂) ∧
    (front = [] → next = readings.baseNow) ∧
    (∀ earlier now, front = earlier ++ [.reset now] → next = now) := by
  intro starts next
  have hnew := at_createControlScheduler hcreate htied
  obtain ⟨t₁, htimeline₁, hat₁⟩ := At.execution hfront hnew
  obtain ⟨t₂, htimeline₂, hat₂⟩ := At.execution hback hat₁
  have hperiod : t₁.period = period * 1000000 := Timeline.period_of_execution htimeline₁
  obtain ⟨horigin, hsame, hstarted, hstarts⟩ := Timeline.started_of_execution htimeline₂ hresets
  have hnext : next = t₁.origin + t₁.started * (period * 1000000) := by
    rw [← hperiod]
    exact hat₁.due
  refine ⟨?_, ?_, fun _ _ => Timeline.not_early htimeline₂, ?_, ?_, ?_⟩
  · refine hstarts.trans ?_
    rw [List.range'_eq_map_range, List.map_map]
    refine List.map_congr_left fun j _ => ?_
    rw [hnext, Function.comp, hperiod]
    push_cast
    ring
  · rw [hat₂.due, Timeline.due, horigin, hsame, hstarted, hnext, hperiod]
    push_cast
    ring
  · intro message s₃ hstep
    cases hstep with
    | throws hwait =>
        rcases waitForNextCycle_cases offset hwait with ⟨-, heq⟩ | ⟨heq, -⟩
        · exact heq
        · cases heq
  · rintro rfl
    cases hfront
    exact hnew.due.trans (by simp [Timeline.due])
  · rintro earlier now rfl
    exact nextCycle_of_reset hfront

/-- On Linux: a wait that is interrupted once, one that throws, and one that returns. -/
theorem timeline_followed_interrupted :
    ∃ s s' : ControlScheduler ℚ,
      createControlScheduler .linux 1 ⟨0, 0, some ⟨5, 0⟩, false⟩ = .ok s ∧
        Execution (Step 5000000000) s
          [.started 0 100, .failed "clock_nanosleep failed", .started 1000000 1000000] s' ∧
        s'.base.nextCycle = 2000000 := by
  let windows : WindowsAnswers := ⟨0, false, 0, 0, []⟩
  obtain ⟨s, hcreate⟩ : ∃ s : ControlScheduler ℚ,
      createControlScheduler .linux 1 ⟨0, 0, some ⟨5, 0⟩, false⟩ = .ok s := ⟨_, rfl⟩
  have hs : s = .linux (.new 1 0 0 ⟨5, 0⟩) := (Except.ok.inj hcreate).symm
  obtain ⟨s', hexec⟩ : ∃ s', Execution (Step 5000000000) s
      [.started 0 100, .failed "clock_nanosleep failed", .started 1000000 1000000] s' := by
    subst hs
    have hfirst : Promised 5000000000 (.linux (.new 1 0 0 ⟨5, 0⟩) : ControlScheduler ℚ)
        ⟨[EINTR, 0], windows, 100⟩ := fun _ => by decide
    have hlast : Promised 5000000000
        (.linux ((LinuxControlScheduler.new 1 0 0 ⟨5, 0⟩).atCycle 1) : ControlScheduler ℚ)
        ⟨[0], windows, 1000000⟩ := fun _ => by decide
    have hthrows : waitForNextCycle
        (.linux ((LinuxControlScheduler.new 1 0 0 ⟨5, 0⟩).atCycle 1) : ControlScheduler ℚ)
        ⟨[EINVAL], windows, 200⟩ = some (Except.error "clock_nanosleep failed",
          .linux ((LinuxControlScheduler.new 1 0 0 ⟨5, 0⟩).atCycle 1)) := rfl
    exact ⟨_, .cons (.returns rfl hfirst) (.cons (.throws hthrows) (.single (.returns rfl hlast)))⟩
  refine ⟨s, s', hcreate, hexec, ?_⟩
  have hfollowed := timeline_followed hcreate
    (by rintro linuxNow ⟨⟩; decide) (.refl s) hexec (by decide)
  obtain ⟨-, hnext, -, -, hnew, -⟩ := hfollowed
  rw [hnext, hnew rfl]
  decide

end ControlScheduler

end RobotController.Scheduler
