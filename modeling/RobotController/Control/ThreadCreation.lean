/-
  Control/ThreadCreation.lean --- a run whose thread cannot be created.

  Source: `control/ControlLoop.cpp` (`run`, `wait`), and the section on threading of
  `README.md`.

  The constructor of `std::jthread` throws when the system has no thread to give.  By
  then `run` has lowered the flag and stored `Running`; the exception destroys the guard
  and leaves both stores as they are.
-/
import RobotController.Control.LifecycleInvariant

set_option autoImplicit false

namespace RobotController.Control

open RobotController.Foundation

/-! ## Steps that fail -/

/-- A `ControlLoop` on a system that may refuse a thread, with the members that the holder of
the mutex has found when it locked it. -/
structure FallibleLoop (τ : Type) where
  loop : Lifecycle τ
  found : Members

/-- What a thread may do on such a system. -/
inductive FallibleEvent (τ : Type) where
  | lifecycle (event : LifecycleEvent τ)
  /-- the constructor of `std::jthread` throws, and the exception leaves `run` -/
  | creationFails (t : τ)
  deriving DecidableEq, Repr

/-- `lifecycle_state_`, `stop_requested_` and `thread_` are as before. -/
structure Members.Restored (before after : Members) : Prop where
  lifecycleState : after.lifecycleState = before.lifecycleState
  stopRequested : after.stopRequested = before.stopRequested
  thread : after.thread = before.thread

/-- Whether an event calls `wait`. -/
def FallibleEvent.CallsWait {τ : Type} : FallibleEvent τ → Prop
  | .lifecycle (.call _ .wantsWait) => True
  | _ => False

namespace FallibleLoop

variable {τ : Type}

def initial : FallibleLoop τ := ⟨.initial, .initial⟩

variable [DecidableEq τ]

/-- The exception leaves `run` where the thread would have been created: nothing but the
guard is destroyed. -/
def unwind (s : Lifecycle τ) (t : τ) : Option (Lifecycle τ) := do
  let holder ← s.mutex
  if holder.caller = t then
    match holder.critical with
    | .runMarked _ _ =>
        return { s with mutex := none, callers := Function.update s.callers t .outside }
    | _ => none
  else none

/-- What an event leads to, when it is possible. -/
def next (s : FallibleLoop τ) : FallibleEvent τ → Option (FallibleLoop τ)
  | .lifecycle event => (s.loop.next event).map fun loop =>
      { loop := loop
        found := match event with
          | .acquire _ => s.loop.members
          | _ => s.found }
  | .creationFails t => (unwind s.loop t).map fun loop => { s with loop := loop }

/-- The steps of a `ControlLoop` and its threads on such a system. -/
def Step (s : FallibleLoop τ) (event : FallibleEvent τ) (s' : FallibleLoop τ) : Prop :=
  s.next event = some s'

/-- The states some interleaving reaches. -/
def Reached (s : FallibleLoop τ) : Prop := Reachable (fun start => start = initial) Step s

variable {s s' : FallibleLoop τ} {t : τ}

/-- What a failure is. -/
theorem creationFails_cases (h : Step s (.creationFails t) s') :
    ∃ n clearedAt untouched, s.loop.mutex = some ⟨t, .runMarked n clearedAt, untouched⟩ ∧
      s' = { s with
        loop := { s.loop with
          mutex := none, callers := Function.update s.loop.callers t .outside } } := by
  obtain ⟨loop, hunwind, rfl⟩ := Option.map_eq_some_iff.mp h
  obtain ⟨⟨caller, c, untouched⟩, hmutex, hunwind⟩ := Option.bind_eq_some_iff.mp hunwind
  split_ifs at hunwind with hcaller
  obtain rfl : caller = t := hcaller
  cases c with
  | runMarked n clearedAt =>
      obtain rfl := Option.some.inj hunwind
      exact ⟨n, clearedAt, untouched, hmutex, rfl⟩
  | _ => simp at hunwind

/-! ## What a run has found -/

/-- What the holder of the mutex has found, at its place in `run`. -/
def Found (found m : Members) : Critical → Prop
  | .runLocked _ =>
      found.thread = m.thread ∧ (m.lifecycleState = .idle → found.lifecycleState = .idle)
  | .runAdmitted _ | .runCleared _ _ => found.thread = m.thread ∧ found.lifecycleState = .idle
  | .runMarked _ _ =>
      found.thread = m.thread ∧ found.lifecycleState = .idle ∧ m.lifecycleState = .running
  | _ => True

/-- The invariant: failures leave the loop as orderly as it was, and nobody has interfered
with what the holder of the mutex found. -/
structure Accounted (s : FallibleLoop τ) : Prop where
  orderly : s.loop.Orderly
  found : ∀ c, s.loop.critical = some c → Found s.found s.loop.members c

/-- The holder of the mutex goes on from what it has found. -/
theorem found_of_advance {found m m' : Members} {requests : Nat} {c c' : Critical}
    (h : Found found m c) (hadvances : Members.Advances m requests c m' c') :
    Found found m' c' := by
  cases hadvances with
  | accept hidle _ => exact ⟨h.1, h.2 hidle⟩
  | clear => exact h
  | mark => exact ⟨h.1, h.2, rfl⟩
  | _ => trivial

/-- A worker that is alive does not interfere: none is, once a run has found the loop idle. -/
theorem found_of_work {found m m' : Members} {requests i : Nat} {c : Critical}
    (h : Found found m c) (hconsistent : m.Consistent requests (some c))
    (hwork : m.work requests i = some m') : Found found m' c := by
  obtain ⟨w, w', hw, hnext, -, hthread, -, hlifecycle, -⟩ := Members.work_cases hwork
  cases c with
  | runLocked n =>
      refine ⟨h.1.trans hthread.symm, fun hidle => h.2 ?_⟩
      rcases hlifecycle with hsame | hfinished
      · rwa [hsame] at hidle
      · simp [hfinished] at hidle
  | runAdmitted n => exact ⟨h.1.trans hthread.symm, h.2⟩
  | runCleared n clearedAt => exact ⟨h.1.trans hthread.symm, h.2⟩
  | runMarked n clearedAt =>
      have hnone := (hconsistent.place _ rfl).1
      have hended := (hconsistent.worker i w hw).ended (hconsistent.joined hnone hw)
      exact absurd hended (Worker.stage_ne_ended hnext)
  | _ => trivial

/-- A failure creates nothing and joins nothing. -/
theorem orderly_unwind {loop : Lifecycle τ} {n : Int} {clearedAt : Nat} {untouched : Bool}
    (h : loop.Orderly) (hmutex : loop.mutex = some ⟨t, .runMarked n clearedAt, untouched⟩) :
    ({ loop with
      mutex := none, callers := Function.update loop.callers t .outside } :
        Lifecycle τ).Orderly := by
  obtain ⟨hconsistent, -, hruns, hstarted⟩ := h
  have hcritical : loop.critical = some (.runMarked n clearedAt) := by
    simp [Lifecycle.critical, hmutex]
  rw [hcritical] at hconsistent hstarted
  exact ⟨hconsistent.relocate rfl (by simp [Lifecycle.critical]), by simp, hruns, hstarted⟩

theorem Accounted.step {event : FallibleEvent τ} (h : s.Accounted) (hstep : Step s event s') :
    s'.Accounted := by
  obtain ⟨horderly, hfound⟩ := h
  cases event with
  | creationFails t =>
      obtain ⟨n, clearedAt, untouched, hmutex, rfl⟩ := creationFails_cases hstep
      refine ⟨orderly_unwind horderly hmutex, ?_⟩
      rintro c ⟨⟩
  | lifecycle event =>
      obtain ⟨loop, hloop, rfl⟩ := Option.map_eq_some_iff.mp hstep
      refine ⟨horderly.step hloop, ?_⟩
      cases event with
      | call u caller =>
          obtain rfl := Lifecycle.call_cases hloop
          exact hfound
      | requestStop =>
          obtain rfl := Option.some.inj hloop
          intro c hc
          have hplace := hfound c hc
          cases c <;> exact hplace
      | acquire u =>
          obtain ⟨c, -, ⟨n, rfl⟩ | rfl, rfl⟩ := Lifecycle.acquire_cases hloop
          · rintro c ⟨⟩
            exact ⟨rfl, id⟩
          · rintro c ⟨⟩
            trivial
      | proceed u =>
          obtain ⟨c, untouched, m', c', hmutex, hadvances, rfl⟩ := Lifecycle.proceed_cases hloop
          rintro c ⟨⟩
          exact found_of_advance (hfound _ (by simp [Lifecycle.critical, hmutex])) hadvances
      | release u =>
          obtain ⟨c, untouched, -, ⟨n, found, worker, -, rfl⟩ | ⟨-, rfl⟩⟩ :=
            Lifecycle.release_cases hloop
          · rintro c ⟨⟩
          · rintro c ⟨⟩
      | work i =>
          obtain ⟨m', hm, rfl⟩ := Option.map_eq_some_iff.mp hloop
          intro c hc
          have hconsistent := horderly.consistent
          have hcritical : s.loop.critical = some c := hc
          rw [hcritical] at hconsistent
          exact found_of_work (hfound c hc) hconsistent hm

theorem Reached.accounted (h : s.Reached) : s.Accounted := by
  refine h.invariant Accounted ?_ fun _ _ _ => Accounted.step
  rintro start rfl
  exact ⟨Lifecycle.orderly_initial, by simp [initial, Lifecycle.initial, Lifecycle.critical]⟩

/-! ## After a failure -/

/-- The loop says that it is running, while no worker is left and none is on its way; and
nobody has called `wait`.  Since then no run has started a worker. -/
structure Stranded (workers : List Worker) (earlier : List RunRecord) (s : FallibleLoop τ) :
    Prop where
  lifecycleState : s.loop.members.lifecycleState = .running
  thread : s.loop.members.thread = none
  workers : s.loop.members.workers = workers
  place : ∀ c, s.loop.critical = some c → c.IsRejecting
  callers : ∀ u, s.loop.callers u ≠ .wantsWait
  runs : ∃ later, s.loop.runs = earlier ++ later ∧ ∀ r ∈ later, r.worker = none

variable {workers : List Worker} {earlier : List RunRecord}

omit [DecidableEq τ] in
/-- Every worker has been joined. -/
theorem Stranded.current (h : s.Stranded workers earlier) :
    s.loop.members.current s.loop.critical = none := by
  cases hcritical : s.loop.critical with
  | none => exact h.thread
  | some c =>
      have hrejecting := h.place c hcritical
      cases c with
      | runCreated n i => exact hrejecting.elim
      | _ => exact h.thread

theorem Stranded.callers_update {u : τ} {caller : Caller} (h : s.Stranded workers earlier)
    (hne : caller ≠ .wantsWait) : ∀ v, Function.update s.loop.callers u caller v ≠ .wantsWait :=
  (Function.forall_update_iff s.loop.callers fun _ c => c ≠ .wantsWait).mpr
    ⟨hne, fun v _ => h.callers v⟩

/-- A run that returns has been turned down. -/
theorem Stranded.release {u : τ} {loop : Lifecycle τ} (h : s.Stranded workers earlier)
    (hrelease : s.loop.release u = some loop) :
    Stranded workers earlier { s with loop := loop } := by
  have hcallers := h.callers_update (u := u) (by simp : Caller.outside ≠ .wantsWait)
  obtain ⟨hrunning, hthread, hworkers, hplace, -, later, hlater, hall⟩ := h
  obtain ⟨c, untouched, hmutex, ⟨n, found, worker, rfl, rfl⟩ | ⟨rfl, rfl⟩⟩ :=
    Lifecycle.release_cases hrelease
  · have hnone : worker = none :=
      hplace (.runLeaving n found worker) (by simp [Lifecycle.critical, hmutex])
    refine ⟨hrunning, hthread, hworkers, ?_, hcallers,
      later ++ [⟨n, found, worker, untouched⟩], ?_, ?_⟩
    · rintro c ⟨⟩
    · exact (congrArg (· ++ _) hlater).trans (List.append_assoc ..)
    · intro r hr
      rcases List.mem_append.mp hr with hold | hnew
      · exact hall r hold
      · exact (congrArg RunRecord.worker (List.mem_singleton.mp hnew)).trans hnone
  · exact (hplace .waitLeaving (by simp [Lifecycle.critical, hmutex])).elim

/-- Only a call of `wait` can end this. -/
theorem Stranded.step {event : FallibleEvent τ} (h : s.Stranded workers earlier)
    (haccounted : s.Accounted) (hstep : Step s event s') (hother : ¬ event.CallsWait) :
    s'.Stranded workers earlier := by
  cases event with
  | creationFails u =>
      obtain ⟨n, clearedAt, untouched, hmutex, -⟩ := creationFails_cases hstep
      have hrejecting := h.place (.runMarked n clearedAt) (by simp [Lifecycle.critical, hmutex])
      exact hrejecting.elim
  | lifecycle event =>
      obtain ⟨loop, hloop, rfl⟩ := Option.map_eq_some_iff.mp hstep
      cases event with
      | call u caller =>
          obtain rfl := Lifecycle.call_cases hloop
          have hne : caller ≠ .wantsWait := by
            rintro rfl
            exact hother trivial
          exact ⟨h.lifecycleState, h.thread, h.workers, h.place, h.callers_update hne, h.runs⟩
      | requestStop =>
          obtain rfl := Option.some.inj hloop
          exact ⟨h.lifecycleState, h.thread, h.workers, h.place, h.callers, h.runs⟩
      | acquire u =>
          obtain ⟨c, hmutex, hentry, rfl⟩ := Lifecycle.acquire_entry hloop
          refine ⟨h.lifecycleState, h.thread, h.workers, ?_, h.callers_update (by simp), h.runs⟩
          rintro c ⟨⟩
          cases hcaller : s.loop.callers u with
          | wantsWait => exact absurd hcaller (h.callers u)
          | wantsRun n =>
              rw [hcaller] at hentry
              obtain rfl := Option.some.inj hentry
              trivial
          | _ =>
              rw [hcaller] at hentry
              cases hentry
      | proceed u =>
          obtain ⟨c, untouched, m', c', hmutex, hadvances, rfl⟩ := Lifecycle.proceed_cases hloop
          have hrejecting := h.place c (by simp [Lifecycle.critical, hmutex])
          cases hadvances with
          | reject _ =>
              refine ⟨h.lifecycleState, h.thread, h.workers, ?_, h.callers, h.runs⟩
              rintro c ⟨⟩
              rfl
          | accept hidle _ =>
              rw [h.lifecycleState] at hidle
              cases hidle
          | _ => exact hrejecting.elim
      | release u => exact h.release hloop
      | work i =>
          obtain ⟨m', hm, rfl⟩ := Option.map_eq_some_iff.mp hloop
          obtain ⟨w, w', hw, hnext, -⟩ := Members.work_cases hm
          have hconsistent := haccounted.orderly.consistent
          have hended := (hconsistent.worker i w hw).ended (hconsistent.joined h.current hw)
          exact absurd hended (Worker.stage_ne_ended hnext)

theorem Stranded.execution {trace : List (FallibleEvent τ)} (hexec : Execution Step s trace s') :
    s.Stranded workers earlier → s.Accounted → (∀ event ∈ trace, ¬ event.CallsWait) →
      s'.Stranded workers earlier := by
  induction hexec with
  | refl _ => exact fun h _ _ => h
  | cons hstep _ ih =>
      intro h haccounted hother
      rw [List.forall_mem_cons] at hother
      exact ih (h.step haccounted hstep hother.1) (haccounted.step hstep) hother.2

/-- A run that fails never leaves things as they were.  When the thread cannot be created,
the run has found the loop idle and leaves it running; `thread_` is as before, and the flag
is down unless a stop has been requested since the run lowered it.  Until `wait` is called,
the loop stays so and every run is turned down. -/
theorem failed_run_never_restores (hs : s.Reached) (hfail : Step s (.creationFails t) s') :
    ∃ (n : Int) (clearedAt : Nat), s.loop.critical = some (.runMarked n clearedAt) ∧ 0 < n ∧
      s.found.lifecycleState = .idle ∧ s'.loop.members.lifecycleState = .running ∧
      s'.loop.members.thread = s.found.thread ∧
      (s'.loop.members.stopRequested = true → clearedAt < s'.loop.requests) ∧
      ¬ s.found.Restored s'.loop.members ∧
      ((∀ u, s'.loop.callers u ≠ .wantsWait) →
        ∀ (trace : List (FallibleEvent τ)) (s'' : FallibleLoop τ), Execution Step s' trace s'' →
          (∀ event ∈ trace, ¬ event.CallsWait) →
            s''.loop.members.lifecycleState = .running ∧
              s''.loop.members.workers = s'.loop.members.workers ∧
              ∃ later, s''.loop.runs = s'.loop.runs ++ later ∧ ∀ r ∈ later, r.worker = none) := by
  have haccounted := hs.accounted.step hfail
  obtain ⟨n, clearedAt, untouched, hmutex, rfl⟩ := creationFails_cases hfail
  have hcritical : s.loop.critical = some (.runMarked n clearedAt) := by
    simp [Lifecycle.critical, hmutex]
  obtain ⟨hthread, hidle, hrunning⟩ := hs.accounted.found _ hcritical
  have hconsistent := hs.accounted.orderly.consistent
  rw [hcritical] at hconsistent
  obtain ⟨hnone, -, hpositive, -, hstop⟩ := hconsistent.place _ rfl
  refine ⟨n, clearedAt, hcritical, hpositive, hidle, hrunning, hthread.symm, hstop, ?_, ?_⟩
  · intro hrestored
    have hsame := hrestored.lifecycleState
    simp [hidle, hrunning] at hsame
  · intro hcallers trace s'' hexec hother
    have hstranded : Stranded s.loop.members.workers s.loop.runs { s with
        loop := { s.loop with
          mutex := none, callers := Function.update s.loop.callers t .outside } } :=
      ⟨hrunning, hnone, rfl, by rintro c ⟨⟩, hcallers, [], (List.append_nil _).symm, by simp⟩
    have hlater := Stranded.execution hexec hstranded haccounted hother
    exact ⟨hlater.lifecycleState, hlater.workers, hlater.runs⟩

/-- A stop has been requested of an idle loop; then a run for five cycles fails. -/
def failedRun : List (FallibleEvent Unit) :=
  [.lifecycle .requestStop, .lifecycle (.call () (.wantsRun 5)), .lifecycle (.acquire ()),
    .lifecycle (.proceed ()), .lifecycle (.proceed ()), .lifecycle (.proceed ())]

/-- A run for one cycle that is turned down. -/
def rejectedRun : List (FallibleEvent Unit) :=
  [.lifecycle (.call () (.wantsRun 1)), .lifecycle (.acquire ()), .lifecycle (.proceed ()),
    .lifecycle (.release ())]

theorem reached_of_schedule (events : List (FallibleEvent τ)) {s : FallibleLoop τ}
    (h : events.foldlM next initial = some s) : s.Reached :=
  ⟨initial, events, rfl, Execution.of_schedule (fun _ _ _ => id) events h⟩

theorem failed_run_never_restores_stop :
    ∃ s s' : FallibleLoop Unit, s.Reached ∧ Step s (.creationFails ()) s' ∧
      s.found.lifecycleState = .idle ∧ ¬ s.found.Restored s'.loop.members := by
  have hrun : ∃ s s' : FallibleLoop Unit, failedRun.foldlM next initial = some s ∧
      Step s (.creationFails ()) s' := ⟨_, _, rfl, rfl⟩
  obtain ⟨s, s', hs, hfail⟩ := hrun
  have hreached := reached_of_schedule _ hs
  obtain ⟨n, clearedAt, -, -, hidle, -, -, -, hrestored, -⟩ :=
    failed_run_never_restores hreached hfail
  exact ⟨s, s', hreached, hfail, hidle, hrestored⟩

/-- The request to stop is lost, the loop says that it is running, and the next run is
turned down. -/
theorem failed_run_strands :
    ∃ s s' s'' : FallibleLoop Unit, s.Reached ∧ Step s (.creationFails ()) s' ∧
      Execution Step s' rejectedRun s'' ∧
      s.found.lifecycleState = .idle ∧ s.found.stopRequested = true ∧
      s'.loop.members.lifecycleState = .running ∧ s'.loop.members.stopRequested = false ∧
      s'.loop.members.workers = [] ∧ s''.loop.runs = [⟨1, .running, none, true⟩] ∧
      ¬ s.found.Restored s'.loop.members := by
  have hrun : ∃ s s' s'' : FallibleLoop Unit, failedRun.foldlM next initial = some s ∧
      Step s (.creationFails ()) s' ∧ rejectedRun.foldlM next s' = some s'' ∧
      s.found.lifecycleState = .idle ∧ s.found.stopRequested = true ∧
      s'.loop.members.lifecycleState = .running ∧ s'.loop.members.stopRequested = false ∧
      s'.loop.members.workers = [] ∧ s''.loop.runs = [⟨1, .running, none, true⟩] :=
    ⟨_, _, _, rfl, rfl, rfl, rfl, rfl, rfl, rfl, rfl, rfl⟩
  obtain ⟨s, s', s'', hs, hfail, hrejected, hidle, hstop, hrunning, hlost, hworkers, hruns⟩ := hrun
  refine ⟨s, s', s'', reached_of_schedule _ hs, hfail,
    Execution.of_schedule (fun _ _ _ => id) _ hrejected, hidle, hstop, hrunning, hlost, hworkers,
    hruns, fun hrestored => ?_⟩
  have hsame := hrestored.lifecycleState
  simp [hidle, hrunning] at hsame

end FallibleLoop

end RobotController.Control
