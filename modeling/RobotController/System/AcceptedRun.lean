/-
  System/AcceptedRun.lean --- a run that nobody gets in the way of.

  Source: `control/ControlLoop.cpp` (`run`).

  When nobody else calls the loop, a call of `run` finds the mutex free and the loop idle: it
  goes on by itself until it returns, and the run has been accepted.  Nobody asks its worker
  to stop, so the worker ends when it has made its cycles.
-/
import RobotController.Control.LifecycleLiveness
import RobotController.System.FinalReport

set_option autoImplicit false

namespace RobotController.Control.Lifecycle

open RobotController.Foundation

variable {loop loop' : Lifecycle Unit} {event : LifecycleEvent Unit} {requested : List Int}

/-- Whether an event is a call of `requestStop` or of `wait`. -/
def isOther : LifecycleEvent Unit → Bool
  | .requestStop | .call _ .wantsWait => true
  | _ => false

/-- Every run asked for has been accepted or may still be, and nothing but runs has been
asked for. -/
structure Accepted (requested : List Int) (loop : Lifecycle Unit) : Prop where
  kept : loop.acceptedRuns ++ loop.critical.elim [] Critical.asked ++
    (loop.callers ()).asked = requested
  requests : loop.requests = 0
  caller : loop.callers () ≠ .wantsWait
  critical : loop.critical ≠ some .waitLocked

theorem accepted_initial : Accepted [] initial where
  kept := rfl
  requests := rfl
  caller := by simp [initial]
  critical := by simp [initial, Lifecycle.critical]

/-- A loop that has no worker yet is idle. -/
theorem idle_of_no_worker (hreached : loop.Reached) (hnone : loop.members.workers = [])
    {n : Int} (hcritical : loop.critical = some (.runLocked n)) :
    loop.members.lifecycleState = .idle := by
  have htruthful := hreached.attended.truthful
  have hunjoined : ∀ ended, ¬ loop.members.Unjoined loop.critical ended := by
    rintro ended ⟨i, w, -, hw, -⟩
    simp [hnone] at hw
  cases hstate : loop.members.lifecycleState with
  | idle => rfl
  | running =>
      rcases htruthful.running hstate with ⟨m, clearedAt, hmarked⟩ | hsome
      · rw [hcritical] at hmarked
        cases hmarked
      · exact absurd hsome (hunjoined _)
  | finished =>
      rcases htruthful.finished hstate with hjoined | hsome
      · rw [hcritical] at hjoined
        cases hjoined
      · exact absurd hsome (hunjoined _)

/-- The only run asked for, of some cycles, is not turned down. -/
theorem Accepted.proceed {n : Int} (h : Accepted requested loop) (hreached : loop.Reached)
    (honly : List.Sublist requested [n]) (hn : 0 < n) (hproceed : loop.proceed () = some loop') :
    Accepted requested loop' := by
  obtain ⟨hkept, hrequests, hcaller, hlocked⟩ := h
  obtain ⟨c, untouched, m, c', hmutex, hadvances, rfl⟩ := proceed_cases hproceed
  have hcritical : loop.critical = some c := by simp [Lifecycle.critical, hmutex]
  rw [hcritical, Option.elim_some] at hkept
  have hmoved : m.workers.map Worker.cycleCount ++ c'.asked =
      loop.members.workers.map Worker.cycleCount ++ c.asked := by
    refine (Members.asked_of_advance hadvances).eq_of_length ?_
    cases hadvances with
    | @reject k hnot =>
        rw [← hkept] at honly
        have hlength := honly.length_le
        have hnone : loop.members.workers = [] := by
          refine List.eq_nil_of_length_eq_zero ?_
          simp only [acceptedRuns, Critical.asked, List.length_append, List.length_map,
            List.length_cons, List.length_nil] at hlength
          omega
        have hmem : k ∈ [n] := honly.subset (by simp [Critical.asked])
        rw [List.mem_singleton.mp hmem] at hnot hcritical
        exact absurd ⟨idle_of_no_worker hreached hnone hcritical, hn⟩ hnot
    | _ => simp [Critical.asked, Members.join, Members.requestToken]
  refine ⟨?_, hrequests, hcaller, ?_⟩
  · change m.workers.map Worker.cycleCount ++ c'.asked ++ _ = _
    rw [hmoved]
    exact hkept
  · change some c' ≠ _
    cases hadvances <;> simp

theorem Accepted.step {n : Int} (h : Accepted requested loop) (hreached : loop.Reached)
    (honly : List.Sublist requested [n]) (hn : 0 < n) (hstep : Step loop event loop')
    (hevent : isOther event = false) : Accepted (requested ++ event.asked) loop' := by
  have hinside := hreached.attended.inside
  obtain ⟨hkept, hrequests, hcaller, hlocked⟩ := h
  cases event with
  | call t caller =>
      have hguard : loop.callers t = .outside ∧ caller.entry.isSome := by
        by_contra hnot
        cases (if_neg hnot).symm.trans hstep
      obtain rfl := call_cases hstep
      rw [hguard.1] at hkept
      change _ ++ [] = _ at hkept
      rw [List.append_nil] at hkept
      refine ⟨?_, hrequests, ?_, hlocked⟩
      · change _ ++ _ ++ (Function.update loop.callers t caller t).asked = _
        rw [Function.update_self, ← hkept]
        rfl
      · change Function.update loop.callers t caller t ≠ _
        rw [Function.update_self]
        rintro rfl
        cases hevent
  | requestStop => cases hevent
  | acquire t =>
      obtain ⟨c, hmutex, hentry, rfl⟩ := acquire_entry hstep
      have hfree : loop.critical = none := by simp [Lifecycle.critical, hmutex]
      rw [hfree, Option.elim_none, List.append_nil, ← asked_of_entry hentry] at hkept
      refine ⟨?_, hrequests, ?_, ?_⟩
      · change _ ++ c.asked ++ (Function.update loop.callers t .inside t).asked = _
        rw [Function.update_self, ← hkept]
        rfl
      · change Function.update loop.callers t .inside t ≠ _
        simp
      · change some c ≠ _
        rintro hwait
        obtain rfl := Option.some.inj hwait
        cases hcalling : loop.callers t <;> simp [hcalling, Caller.entry] at hentry
        exact hcaller hcalling
  | proceed t =>
      have hproceeded :=
        Accepted.proceed ⟨hkept, hrequests, hcaller, hlocked⟩ hreached honly hn hstep
      exact (List.append_nil requested).symm ▸ hproceeded
  | release t =>
      obtain ⟨c, untouched, hmutex, hcases⟩ := release_cases hstep
      have hholder : loop.callers t = .inside := (hinside t).mpr ⟨c, untouched, hmutex⟩
      have hcritical : loop.critical = some c := by simp [Lifecycle.critical, hmutex]
      rw [hcritical, hholder] at hkept
      have houtside : Function.update loop.callers t .outside t = .outside :=
        Function.update_self ..
      rcases hcases with ⟨k, found, worker, rfl, rfl⟩ | ⟨rfl, rfl⟩
      · refine ⟨?_, hrequests, ?_, by simp [Lifecycle.critical]⟩
        · change _ ++ [] ++ (Function.update loop.callers t .outside t).asked = _
          rw [houtside]
          exact hkept.trans (List.append_nil _).symm
        · change Function.update loop.callers t .outside t ≠ _
          rw [houtside]
          simp
      · refine ⟨?_, hrequests, ?_, by simp [Lifecycle.critical]⟩
        · change _ ++ [] ++ (Function.update loop.callers t .outside t).asked = _
          rw [houtside]
          exact hkept.trans (List.append_nil _).symm
        · change Function.update loop.callers t .outside t ≠ _
          rw [houtside]
          simp
  | work i =>
      obtain ⟨members, hmembers, rfl⟩ := Option.map_eq_some_iff.mp hstep
      refine ⟨?_, hrequests, hcaller, hlocked⟩
      change members.workers.map Worker.cycleCount ++ _ ++ _ = _
      rw [Members.cycleCounts_of_work hmembers]
      exact hkept.trans (List.append_nil requested).symm

/-- A call of `run` waits for nobody. -/
theorem Accepted.exists_call_step (h : Accepted requested loop) (hreached : loop.Reached)
    (hcalled : loop.callers () ≠ .outside) :
    ∃ access loop', (access = .acquire () ∨ access = .proceed () ∨ access = .release ()) ∧
      Step loop access loop' := by
  have hinside := hreached.attended.inside ()
  have hfree : loop.callers () ≠ .inside → loop.mutex = none := by
    intro hout
    cases hmutex : loop.mutex with
    | none => rfl
    | some holder => exact absurd (hinside.mpr ⟨holder.critical, holder.untouched, hmutex⟩) hout
  cases hcaller : loop.callers () with
  | outside => exact absurd hcaller hcalled
  | wantsWait => exact absurd hcaller h.caller
  | wantsRun n =>
      have hmutex := hfree (by simp [hcaller])
      have hacquire : (loop.acquire ()).isSome := by
        simp [Lifecycle.acquire, hmutex, hcaller, Caller.entry]
      obtain ⟨loop', hacquire⟩ := Option.isSome_iff_exists.mp hacquire
      exact ⟨.acquire (), loop', .inl rfl, hacquire⟩
  | inside =>
      obtain ⟨c, untouched, hmutex⟩ := hinside.mp hcaller
      have hnotwait : c ≠ .waitLocked := by
        rintro rfl
        exact h.critical (by simp [Lifecycle.critical, hmutex])
      obtain ⟨access, loop', hown, hstep⟩ :=
        hreached.attended.exists_holder_step hmutex fun hwait => absurd hwait hnotwait
      exact ⟨access, loop', .inr hown, hstep⟩

/-- With nobody inside, the runs asked for have been accepted. -/
theorem Accepted.acceptedRuns (h : Accepted requested loop) (hreached : loop.Reached)
    (houtside : loop.callers () = .outside) : loop.acceptedRuns = requested := by
  have hmutex : loop.mutex = none := by
    cases hmutex : loop.mutex with
    | none => rfl
    | some holder =>
        have hinside := (hreached.attended.inside ()).mpr ⟨_, _, hmutex⟩
        rw [houtside] at hinside
        cases hinside
  have hkept := h.kept
  have hcritical : loop.critical = none := by simp [Lifecycle.critical, hmutex]
  rw [hcritical, houtside] at hkept
  simpa [Caller.asked] using hkept

/-- Nobody asks the workers to stop, so one that has left its loop has made its cycles. -/
theorem Accepted.executed_eq (h : Accepted requested loop) (hreached : loop.Reached) {i : Nat}
    {w : Worker} (hw : loop.members.workers[i]? = some w) (hended : w.stage = .ended) :
    (w.executed : Int) = w.cycleCount := by
  have haccounted := hreached.orderly.consistent.worker i w hw
  rcases haccounted.sound.pastLoop (.inr hended) with hall | hstopped
  · exact hall
  · have hchecked := haccounted.lastCheck_le
    rw [h.requests] at hchecked
    omega

end RobotController.Control.Lifecycle
