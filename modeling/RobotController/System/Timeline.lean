/-
  System/Timeline.lean --- runs of the control loop on one timeline.

  Sources: `control/ControlLoop.cpp` (`run`, `update`),
  `scheduler/PortableControlScheduler.cpp`.

  The timeline lives in the scheduler: it starts when the scheduler is constructed and
  is advanced by the cycles, whatever run they belong to.  Here the loop and its callers
  run as in `Control/Lifecycle.lean` while the clock goes on.  No run restarts the
  timeline, so a cycle's scheduled start is that of its number.
-/
import RobotController.Control.LifecycleProgress
import RobotController.Scheduler.PortableControlScheduler
import RobotController.System.Coordination
import Mathlib.Data.Rat.Floor

set_option autoImplicit false

namespace RobotController.System

open RobotController.Foundation RobotController.Control RobotController.Scheduler

/-! ## The machine -/

/-- A run that has started a worker: when `run` was called, and the cycles begun before
the worker was created. -/
structure Acceptance where
  calledAt : TimePoint
  cyclesBefore : Nat
  deriving DecidableEq, Repr

/-- A cycle that has begun: its worker, its scheduled start and the time of its
beginning. -/
structure CycleStart where
  worker : Nat
  scheduledStart : TimePoint
  actualStart : TimePoint
  deriving DecidableEq, Repr

/-- The control loop and its scheduler: the time, whether the update in progress has
returned from `waitForNextCycle`, when each thread made its last call, and the workers
and the cycles so far. -/
structure TimedLoop (τ : Type) where
  now : TimePoint
  scheduler : PortableControlScheduler
  loop : Lifecycle τ
  waited : Bool
  calledAt : τ → TimePoint
  accepted : List Acceptance
  cycles : List CycleStart

/-- What may happen. -/
inductive TimedEvent (τ : Type) where
  /-- time passes -/
  | tick (elapsed : Nat)
  | lifecycle (event : LifecycleEvent τ)
  /-- `waitForNextCycle` returns to worker `i` -/
  | waitForNextCycle (i : Nat)

namespace TimedLoop

variable {τ : Type}

/-- A loop around a scheduler that is constructed at a time. -/
def initial (period : Int) (constructedAt : TimePoint) : TimedLoop τ where
  now := constructedAt
  scheduler := .new period constructedAt
  loop := .initial
  waited := false
  calledAt := fun _ => constructedAt
  accepted := []
  cycles := []

variable [DecidableEq τ]

/-- The times of the calls after an event. -/
def callTimes (s : TimedLoop τ) : LifecycleEvent τ → τ → TimePoint
  | .call t _ => Function.update s.calledAt t s.now
  | _ => s.calledAt

/-- The runs that have started a worker after an event that leads to `loop`. -/
def acceptances (s : TimedLoop τ) (loop : Lifecycle τ) : LifecycleEvent τ → List Acceptance
  | .proceed t =>
      if s.loop.members.workers.length < loop.members.workers.length then
        s.accepted ++ [⟨s.calledAt t, s.cycles.length⟩]
      else s.accepted
  | _ => s.accepted

/-- What an event of the loop leads to. -/
def after (s : TimedLoop τ) (event : LifecycleEvent τ) (loop : Lifecycle τ) : TimedLoop τ :=
  { s with
    loop := loop
    waited := s.waited && !endsUpdate s.loop event
    calledAt := s.callTimes event
    accepted := s.acceptances loop event }

/-- The beginning of `update`: `waitForNextCycle` returns the scheduled start. -/
def beginCycle (s : TimedLoop τ) (i : Nat) : TimedLoop τ :=
  let (scheduledStart, scheduler) := s.scheduler.waitForNextCycle
  { s with
    scheduler := scheduler
    waited := true
    cycles := s.cycles ++ [⟨i, scheduledStart, s.now⟩] }

/-- What an event leads to, when it is possible.  When `waitForNextCycle` returns is
left open: the schedulers that inherit the timeline differ only in that. -/
def next (s : TimedLoop τ) : TimedEvent τ → Option (TimedLoop τ)
  | .tick elapsed => some { s with now := s.now + elapsed }
  | .lifecycle event =>
      if endsUpdate s.loop event = true ∧ s.waited = false then none
      else (s.loop.next event).map (s.after event)
  | .waitForNextCycle i =>
      if s.loop.members.isUpdating i = true ∧ s.waited = false then some (s.beginCycle i)
      else none

def Step (s : TimedLoop τ) (event : TimedEvent τ) (s' : TimedLoop τ) : Prop :=
  s.next event = some s'

/-- The states some interleaving reaches. -/
def Reached (period : Int) (constructedAt : TimePoint) (s : TimedLoop τ) : Prop :=
  Reachable (fun start => start = initial period constructedAt) Step s

end TimedLoop

/-! ## Runs and their cycles -/

/-- The runs and the cycles that are noted belong together: a run's cycles come after
it, and its first cycle is the one that was next when its worker was created. -/
structure Assigned (accepted : List Acceptance) (cycles : List CycleStart) : Prop where
  worker_lt : ∀ cycle ∈ cycles, cycle.worker < accepted.length
  before_le : ∀ run ∈ accepted, run.cyclesBefore ≤ cycles.length
  later : ∀ (k : Nat) (cycle : CycleStart) (run : Acceptance), cycles[k]? = some cycle →
    accepted[cycle.worker]? = some run → run.cyclesBefore ≤ k
  first : ∀ (i : Nat) (run : Acceptance), accepted[i]? = some run →
    (∃ cycle, cycles[run.cyclesBefore]? = some cycle ∧ cycle.worker = i) ∨
      (∀ cycle ∈ cycles, cycle.worker ≠ i) ∧
        (i + 1 = accepted.length → run.cyclesBefore = cycles.length)

section Lists

variable {accepted : List Acceptance} {cycles : List CycleStart}

theorem getElem?_concat_cases {α : Type} {xs : List α} {x y : α} {k : Nat}
    (h : (xs ++ [x])[k]? = some y) : xs[k]? = some y ∨ k = xs.length ∧ y = x := by
  rcases Nat.lt_trichotomy k xs.length with hlt | rfl | hgt
  · exact .inl (by rwa [List.getElem?_append_left hlt] at h)
  · rw [List.getElem?_concat_length] at h
    exact .inr ⟨rfl, (Option.some.inj h).symm⟩
  · rw [List.getElem?_eq_none (by simp; omega)] at h
    simp at h

/-- A new worker has no cycle yet. -/
theorem Assigned.accept (h : Assigned accepted cycles) {run : Acceptance}
    (hbefore : run.cyclesBefore = cycles.length) : Assigned (accepted ++ [run]) cycles where
  worker_lt cycle hcycle := by
    have hlt := h.worker_lt cycle hcycle
    simp only [List.length_append, List.length_singleton]
    omega
  before_le other hother := by
    rcases List.mem_append.mp hother with hold | hnew
    · exact h.before_le other hold
    · obtain rfl := List.mem_singleton.mp hnew
      exact hbefore.le
  later k cycle other hcycle hother := by
    rcases getElem?_concat_cases hother with hold | ⟨hworker, -⟩
    · exact h.later k cycle other hcycle hold
    · exact absurd (h.worker_lt cycle (List.mem_of_getElem? hcycle)) (by omega)
  first i other hother := by
    rcases getElem?_concat_cases hother with hold | ⟨rfl, rfl⟩
    · refine (h.first i other hold).imp_right fun hnone => ⟨hnone.1, fun hlast => ?_⟩
      obtain ⟨hlt, -⟩ := List.getElem?_eq_some_iff.mp hold
      simp only [List.length_append, List.length_singleton] at hlast
      omega
    · refine .inr ⟨fun cycle hcycle hworker => ?_, fun _ => hbefore⟩
      exact absurd (h.worker_lt cycle hcycle) (by omega)

/-- Only the latest worker begins cycles. -/
theorem Assigned.begin (h : Assigned accepted cycles) {cycle : CycleStart}
    (hlast : cycle.worker + 1 = accepted.length) : Assigned accepted (cycles ++ [cycle]) where
  worker_lt other hother := by
    rcases List.mem_append.mp hother with hold | hnew
    · exact h.worker_lt other hold
    · obtain rfl := List.mem_singleton.mp hnew
      omega
  before_le run hrun := by
    have hle := h.before_le run hrun
    simp only [List.length_append, List.length_singleton]
    omega
  later k other run hother hrun := by
    rcases getElem?_concat_cases hother with hold | ⟨rfl, -⟩
    · exact h.later k other run hold hrun
    · exact h.before_le run (List.mem_of_getElem? hrun)
  first i run hrun := by
    rcases h.first i run hrun with ⟨found, hfound, hworker⟩ | ⟨hnone, hnext⟩
    · obtain ⟨hlt, -⟩ := List.getElem?_eq_some_iff.mp hfound
      exact .inl ⟨found, by rw [List.getElem?_append_left hlt, hfound], hworker⟩
    · by_cases hi : cycle.worker = i
      · refine .inl ⟨cycle, ?_, hi⟩
        rw [hnext (by omega), List.getElem?_concat_length]
      · refine .inr ⟨fun other hother => ?_, fun hlatest => ?_⟩
        · rcases List.mem_append.mp hother with hold | hnew
          · exact hnone other hold
          · rwa [List.mem_singleton.mp hnew]
        · omega

end Lists

/-! ## The invariant -/

namespace TimedLoop

variable {τ : Type}

/-- The scheduled starts follow the numbers of the cycles. -/
structure OnTimeline (period : Int) (constructedAt : TimePoint) (s : TimedLoop τ) : Prop where
  orderly : s.loop.Orderly
  scheduler : s.scheduler = ⟨period, constructedAt + s.cycles.length * (period * 1000000)⟩
  scheduled : ∀ (k : Nat) (cycle : CycleStart), s.cycles[k]? = some cycle →
    cycle.scheduledStart = constructedAt + k * (period * 1000000)
  accepted : s.accepted.length = s.loop.members.workers.length
  assigned : Assigned s.accepted s.cycles

theorem onTimeline_initial (period : Int) (constructedAt : TimePoint) :
    (initial period constructedAt : TimedLoop τ).OnTimeline period constructedAt where
  orderly := Lifecycle.orderly_initial
  scheduler := by simp [initial, PortableControlScheduler.new]
  scheduled := by simp [initial]
  accepted := rfl
  assigned := by constructor <;> simp [initial]

/-- A worker within an update is the latest. -/
theorem latest_of_isUpdating {loop : Lifecycle τ} (h : loop.Orderly) {i : Nat}
    (hi : loop.members.isUpdating i = true) : i + 1 = loop.members.workers.length := by
  obtain ⟨w, hw, hupdating⟩ := Members.isUpdating_iff.mp hi
  have haccounted := h.consistent.worker i w hw
  have hunjoined : w.joined = false := by
    by_contra hjoined
    have hended := haccounted.ended (by simpa using hjoined)
    simp [Worker.isUpdating, hended] at hupdating
  exact h.consistent.latest i (haccounted.unjoined.mp hunjoined)

variable {period : Int} {constructedAt : TimePoint} {s s' : TimedLoop τ}

/-- No cycle of a run is scheduled before its first. -/
theorem OnTimeline.le_scheduledStart (h : s.OnTimeline period constructedAt)
    (hperiod : 0 < period) {k : Nat} {cycle : CycleStart} {run : Acceptance}
    (hcycle : s.cycles[k]? = some cycle) (hrun : s.accepted[cycle.worker]? = some run) :
    constructedAt + run.cyclesBefore * (period * 1000000) ≤ cycle.scheduledStart := by
  have hlater : (run.cyclesBefore : Int) ≤ k := by
    exact_mod_cast h.assigned.later k cycle run hcycle hrun
  rw [h.scheduled k cycle hcycle]
  nlinarith

theorem OnTimeline.beginCycle (h : s.OnTimeline period constructedAt) {i : Nat}
    (hupdating : s.loop.members.isUpdating i = true) :
    (s.beginCycle i).OnTimeline period constructedAt where
  orderly := h.orderly
  scheduler := by
    simp only [TimedLoop.beginCycle, PortableControlScheduler.waitForNextCycle, h.scheduler,
      PortableControlScheduler.advanceSchedule, PortableControlScheduler.periodDuration,
      List.length_append, List.length_singleton, PortableControlScheduler.mk.injEq, true_and]
    push_cast
    ring
  scheduled k cycle hcycle := by
    rcases getElem?_concat_cases hcycle with hold | ⟨rfl, rfl⟩
    · exact h.scheduled k cycle hold
    · simp only [PortableControlScheduler.scheduledCycle, h.scheduler]
  accepted := h.accepted
  assigned := h.assigned.begin ((latest_of_isUpdating h.orderly hupdating).trans h.accepted.symm)

variable [DecidableEq τ]

/-- Only the holder of the mutex creates workers, one at a time. -/
theorem workers_length_of_step {loop loop' : Lifecycle τ} {event : LifecycleEvent τ}
    (h : Lifecycle.Step loop event loop') :
    loop'.members.workers.length = loop.members.workers.length ∨
      (∃ t, event = .proceed t) ∧
        loop'.members.workers.length = loop.members.workers.length + 1 := by
  cases event with
  | call t caller =>
      obtain rfl := Lifecycle.call_cases h
      exact .inl rfl
  | requestStop =>
      obtain rfl := Option.some.inj h
      exact .inl rfl
  | acquire t =>
      obtain ⟨c, -, -, rfl⟩ := Lifecycle.acquire_cases h
      exact .inl rfl
  | proceed t =>
      obtain ⟨c, untouched, m', c', -, hadvances, rfl⟩ := Lifecycle.proceed_cases h
      cases hadvances with
      | create => exact .inr ⟨⟨t, rfl⟩, by simp⟩
      | replace _ => exact .inl (by simp [Members.requestToken])
      | replaced _ => exact .inl (by simp [Members.join])
      | join _ _ => exact .inl (by simp [Members.join])
      | _ => exact .inl rfl
  | release t =>
      obtain ⟨c, untouched, -, ⟨n, found, worker, -, rfl⟩ | ⟨-, rfl⟩⟩ :=
        Lifecycle.release_cases h
      · exact .inl rfl
      · exact .inl rfl
  | work i =>
      obtain ⟨m, hm, rfl⟩ := Option.map_eq_some_iff.mp h
      obtain ⟨w, w', -, -, hworkers, -⟩ := Members.work_cases hm
      exact .inl (by rw [hworkers, List.length_set])

/-- Every worker that is created is noted. -/
theorem acceptances_cases {loop : Lifecycle τ} {event : LifecycleEvent τ}
    (h : Lifecycle.Step s.loop event loop) :
    (s.acceptances loop event = s.accepted ∧
        loop.members.workers.length = s.loop.members.workers.length) ∨
      ∃ run : Acceptance, run.cyclesBefore = s.cycles.length ∧
        s.acceptances loop event = s.accepted ++ [run] ∧
        loop.members.workers.length = s.loop.members.workers.length + 1 := by
  rcases workers_length_of_step h with hsame | ⟨⟨t, rfl⟩, hgrown⟩
  · refine .inl ⟨?_, hsame⟩
    cases event with
    | proceed t => exact if_neg (by omega)
    | _ => rfl
  · exact .inr ⟨_, rfl, if_pos (by omega), hgrown⟩

theorem OnTimeline.lifecycle (h : s.OnTimeline period constructedAt) {loop : Lifecycle τ}
    {event : LifecycleEvent τ} (hstep : Lifecycle.Step s.loop event loop) :
    (s.after event loop).OnTimeline period constructedAt := by
  have horderly := h.orderly.step hstep
  rcases acceptances_cases hstep with ⟨hsame, hlength⟩ | ⟨run, hbefore, hadded, hlength⟩
  · refine ⟨horderly, h.scheduler, h.scheduled, ?_, ?_⟩
    · exact (congrArg List.length hsame).trans (h.accepted.trans hlength.symm)
    · change Assigned (s.acceptances loop event) s.cycles
      rw [hsame]
      exact h.assigned
  · refine ⟨horderly, h.scheduler, h.scheduled, ?_, ?_⟩
    · change (s.acceptances loop event).length = loop.members.workers.length
      rw [hadded, hlength, List.length_append, h.accepted]
      rfl
    · change Assigned (s.acceptances loop event) s.cycles
      rw [hadded]
      exact h.assigned.accept hbefore

theorem OnTimeline.step (h : s.OnTimeline period constructedAt) {event : TimedEvent τ}
    (hstep : Step s event s') : s'.OnTimeline period constructedAt := by
  cases event with
  | tick elapsed =>
      obtain rfl := Option.some.inj hstep
      exact ⟨h.orderly, h.scheduler, h.scheduled, h.accepted, h.assigned⟩
  | lifecycle event =>
      simp only [Step, next] at hstep
      split_ifs at hstep
      obtain ⟨loop, hloop, rfl⟩ := Option.map_eq_some_iff.mp hstep
      exact h.lifecycle hloop
  | waitForNextCycle i =>
      simp only [Step, next] at hstep
      split_ifs at hstep with hguard
      obtain rfl := Option.some.inj hstep
      exact h.beginCycle hguard.1

theorem Reached.onTimeline (h : s.Reached period constructedAt) :
    s.OnTimeline period constructedAt := by
  refine h.invariant (OnTimeline period constructedAt) ?_ fun _ _ _ hs hstep => hs.step hstep
  rintro start rfl
  exact onTimeline_initial period constructedAt

/-! ## Fresh timelines -/

/-- A cycle on a timeline that started with its run, which was called at `calledAt`:
it is scheduled no earlier than one period before the call, and nothing that passed
before the call is in the delay and in the backlog it reports. -/
structure FreshCycle (scheduler : PortableControlScheduler) (calledAt : TimePoint)
    (cycle : CycleStart) : Prop where
  scheduled : calledAt - scheduler.periodDuration ≤ cycle.scheduledStart
  delay : (PortableControlScheduler.schedulingDelay cycle.actualStart cycle.scheduledStart : ℚ) ≤
    PortableControlScheduler.schedulingDelay cycle.actualStart calledAt
  behind : scheduler.hasBacklog cycle.actualStart cycle.scheduledStart = true →
    scheduler.hasBacklog cycle.actualStart calledAt = true
  backlog : (scheduler.backlog cycle.actualStart cycle.scheduledStart : ℚ) ≤
    scheduler.backlog cycle.actualStart calledAt

/-- Every run is on a fresh timeline: its cycles are, and when it was called none of
those that follow its first cycle was due, so that no burst of them makes up for the time
before. -/
structure Fresh (s : TimedLoop τ) : Prop where
  cycles : ∀ cycle ∈ s.cycles, ∀ run, s.accepted[cycle.worker]? = some run →
    FreshCycle s.scheduler run.calledAt cycle
  following : ∀ (k : Nat) (cycle next : CycleStart) (run : Acceptance),
    s.cycles[k]? = some cycle → s.cycles[k + 1]? = some next → next.worker = cycle.worker →
    s.accepted[next.worker]? = some run → run.calledAt < next.scheduledStart

/-- A cycle that is scheduled at the call or later is fresh. -/
theorem freshCycle_of_le {scheduler : PortableControlScheduler} {calledAt : TimePoint}
    {cycle : CycleStart} (hperiod : 0 < scheduler.period)
    (hcalled : calledAt ≤ cycle.scheduledStart) : FreshCycle scheduler calledAt cycle where
  scheduled := by
    unfold PortableControlScheduler.periodDuration
    linarith
  delay := PortableControlScheduler.schedulingDelay_le_iff.mpr hcalled
  behind := scheduler.hasBacklog_of_le hcalled
  backlog := scheduler.backlog_le_of_le hcalled

/-- When every run is on a fresh timeline: if and only if every run that has begun a
cycle was called no later than the next scheduled start of the timeline, which is the
one numbered by the cycles begun before. -/
theorem fresh_timeline_iff (hperiod : 0 < period) (hs : s.Reached period constructedAt) :
    s.Fresh ↔ ∀ (i : Nat) (run : Acceptance), s.accepted[i]? = some run →
      (∃ cycle ∈ s.cycles, cycle.worker = i) →
        run.calledAt ≤ constructedAt + run.cyclesBefore * (period * 1000000) := by
  have htimeline := hs.onTimeline
  have hschedulerPeriod : 0 < s.scheduler.period := by
    rw [htimeline.scheduler]
    exact hperiod
  constructor
  · rintro hfresh i run hrun ⟨cycle, hcycle, rfl⟩
    rcases htimeline.assigned.first cycle.worker run hrun with ⟨first, hfirst, hworker⟩ | hnone
    · have hcycle := hfresh.cycles first (List.mem_of_getElem? hfirst) run (hworker ▸ hrun)
      have hcalled := PortableControlScheduler.schedulingDelay_le_iff.mp hcycle.delay
      rwa [htimeline.scheduled _ first hfirst] at hcalled
    · exact absurd rfl (hnone.1 cycle hcycle)
  · intro hcalled
    have hbegun (k : Nat) (cycle : CycleStart) (run : Acceptance)
        (hcycle : s.cycles[k]? = some cycle) (hrun : s.accepted[cycle.worker]? = some run) :
        run.calledAt ≤ cycle.scheduledStart :=
      (hcalled cycle.worker run hrun ⟨cycle, List.mem_of_getElem? hcycle, rfl⟩).trans
        (htimeline.le_scheduledStart hperiod hcycle hrun)
    refine ⟨fun cycle hcycle run hrun => ?_, fun k cycle next run hcycle hnext hsame hrun => ?_⟩
    · obtain ⟨k, hk⟩ := List.mem_iff_getElem?.mp hcycle
      exact freshCycle_of_le hschedulerPeriod (hbegun k cycle run hk hrun)
    · have hbefore := hbegun k cycle run hcycle (hsame ▸ hrun)
      rw [htimeline.scheduled k cycle hcycle] at hbefore
      rw [htimeline.scheduled (k + 1) next hnext]
      push_cast
      linarith

theorem reached_of_schedule (events : List (TimedEvent τ))
    (h : events.foldlM next (initial period constructedAt) = some s) :
    s.Reached period constructedAt :=
  ⟨initial period constructedAt, events, rfl, Execution.of_schedule (fun _ _ _ => id) events h⟩

/-- A run of two cycles that is called at once and, half a period after its last cycle,
a run of one cycle, up to the beginning of that cycle. -/
def runTwice : List (TimedEvent Unit) :=
  (Lifecycle.runEvents () 2 ++ Lifecycle.workEvents 3).map .lifecycle ++
    .waitForNextCycle 0 :: (Lifecycle.workEvents 3).map .lifecycle ++
    .tick 1000000 :: .waitForNextCycle 0 ::
      (Lifecycle.workEvents 2 ++ Lifecycle.waitEvents ()).map .lifecycle ++
    .tick 500000 ::
      (Lifecycle.runEvents () 1 ++ List.replicate 3 (LifecycleEvent.work 1)).map .lifecycle ++
    [.tick 500000, .waitForNextCycle 1]

theorem fresh_timeline_twice :
    ∃ s : TimedLoop Unit, s.Reached 1 0 ∧ s.accepted = [⟨0, 0⟩, ⟨1500000, 2⟩] ∧
      s.cycles = [⟨0, 0, 0⟩, ⟨0, 1000000, 1000000⟩, ⟨1, 2000000, 2000000⟩] ∧ s.Fresh := by
  have hrun : ∃ s : TimedLoop Unit, runTwice.foldlM next (initial 1 0) = some s ∧
      s.accepted = [⟨0, 0⟩, ⟨1500000, 2⟩] ∧
      s.cycles = [⟨0, 0, 0⟩, ⟨0, 1000000, 1000000⟩, ⟨1, 2000000, 2000000⟩] :=
    ⟨_, rfl, rfl, rfl⟩
  obtain ⟨s, hs, haccepted, hcycles⟩ := hrun
  have hreached := reached_of_schedule _ hs
  refine ⟨s, hreached, haccepted, hcycles, (fresh_timeline_iff (by decide) hreached).mpr ?_⟩
  rw [haccepted]
  intro i run hrun _
  have hmem := List.mem_of_getElem? hrun
  simp only [List.mem_cons, List.not_mem_nil, or_false] at hmem
  obtain rfl | rfl := hmem <;> decide

/-- A run of one cycle, up to the beginning of the cycle, so many nanoseconds after the
construction of the scheduler. -/
def runAfter (idle : Nat) : List (TimedEvent Unit) :=
  .tick idle :: (Lifecycle.runEvents () 1 ++ Lifecycle.workEvents 3).map .lifecycle ++
    [.waitForNextCycle 0]

/-- The first run is called ten milliseconds after the construction of the scheduler:
its first cycle is scheduled at the construction, and begins with a delay of all of them
and a backlog. -/
theorem idle_reported_as_backlog :
    ∃ s : TimedLoop Unit, s.Reached 1 0 ∧ s.accepted = [⟨10000000, 0⟩] ∧
      s.cycles = [⟨0, 0, 10000000⟩] ∧ s.scheduler.hasBacklog 10000000 0 = true ∧
      (PortableControlScheduler.schedulingDelay 10000000 0 : ℚ) = 10 ∧
      ¬ ∀ cycle ∈ s.cycles, ∀ run, s.accepted[cycle.worker]? = some run →
        run.calledAt - 1 * 1000000 ≤ cycle.scheduledStart := by
  have hrun : ∃ s : TimedLoop Unit, (runAfter 10000000).foldlM next (initial 1 0) = some s ∧
      s.accepted = [⟨10000000, 0⟩] ∧ s.cycles = [⟨0, 0, 10000000⟩] ∧
      s.scheduler.hasBacklog 10000000 0 = true := ⟨_, rfl, rfl, rfl, rfl⟩
  obtain ⟨s, hs, haccepted, hcycles, hbacklog⟩ := hrun
  have hdelay : (PortableControlScheduler.schedulingDelay 10000000 0 : ℚ) = 10 := by
    rw [PortableControlScheduler.schedulingDelay, toMilliseconds_exact]
    norm_num
  refine ⟨s, reached_of_schedule _ hs, haccepted, hcycles, hbacklog, hdelay, ?_⟩
  rw [haccepted, hcycles]
  intro hfresh
  have hearly := hfresh ⟨0, 0, 10000000⟩ (by simp) ⟨10000000, 0⟩ rfl
  revert hearly
  decide

end TimedLoop

end RobotController.System
