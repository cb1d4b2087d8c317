/-
  Control/LifecycleProgress.lean --- a run that nobody stops.

  Source: `control/ControlLoop.cpp` (`run`, `wait`).

  From an idle loop, `run` starts a worker; left alone, the worker executes every cycle of
  its run and returns; and `wait` joins it and leaves the loop idle again.
-/
import RobotController.Control.LifecycleInvariant
import Mathlib.Algebra.Order.Ring.Int

set_option autoImplicit false

namespace RobotController.Control

open RobotController.Foundation

namespace Members

/-- The cycles all workers have executed. -/
def executedCycles (m : Members) : Nat := (m.workers.map Worker.executed).sum

/-- The cycles all workers were created for. -/
def acceptedCycles (m : Members) : Int := (m.workers.map Worker.cycleCount).sum

/-- A new worker is assigned to a `thread_` that is not joinable. -/
theorem advance_of_thread_none {m : Members} {requests i : Nat} {n : Int} (h : m.thread = none) :
    m.advance requests (.runCreated n i) =
      some ({ m with thread := some i }, .runLeaving n .idle (some i)) := by
  simp only [Members.advance, h]

end Members

namespace Lifecycle

variable {τ : Type}

/-- A wait for a worker that has returned. -/
def waitEvents (t : τ) : List (LifecycleEvent τ) :=
  [.call t .wantsWait, .acquire t] ++ List.replicate 2 (.proceed t) ++ [.release t]

/-- The loop is idle, and thread `t` is outside. -/
structure Resting (t : τ) (s : Lifecycle τ) : Prop where
  lifecycleState : s.members.lifecycleState = .idle
  thread : s.members.thread = none
  mutex : s.mutex = none
  caller : s.callers t = .outside

/-- Worker `w` is the latest, and nobody has asked it to stop. -/
structure Working (t : τ) (earlier : List Worker) (w : Worker) (s : Lifecycle τ) : Prop where
  workers : s.members.workers = earlier ++ [w]
  thread : s.members.thread = some earlier.length
  stopRequested : s.members.stopRequested = false
  mutex : s.mutex = none
  caller : s.callers t = .outside

/-- Thread `t` is at a place under the mutex, with these members and requests. -/
structure Inside (t : τ) (m : Members) (requests : Nat) (c : Critical) (s : Lifecycle τ) :
    Prop where
  members : s.members = m
  requests : s.requests = requests
  mutex : ∃ untouched, s.mutex = some ⟨t, c, untouched⟩

/-- A call is over. -/
structure Left (t : τ) (m : Members) (s : Lifecycle τ) : Prop where
  members : s.members = m
  mutex : s.mutex = none
  caller : s.callers t = .outside

theorem resting_initial (t : τ) : (initial : Lifecycle τ).Resting t := ⟨rfl, rfl, rfl, rfl⟩

variable [DecidableEq τ] {s : Lifecycle τ} {t : τ} {m m' : Members} {requests : Nat}
  {c c' : Critical} {earlier : List Worker} {w w' : Worker}

/-! ## One call at a time -/

/-- With the mutex free, a call gets it. -/
theorem enter {caller : Caller} (hmutex : s.mutex = none) (hcaller : s.callers t = .outside)
    (hentry : caller.entry = some c) :
    ∃ s', Execution Step s [.call t caller, .acquire t] s' ∧
      s'.Inside t s.members s.requests c := by
  have hcall : s.call t caller =
      some { s with callers := Function.update s.callers t caller } :=
    if_pos ⟨hcaller, by simp [hentry]⟩
  have hacquire : Step { s with callers := Function.update s.callers t caller } (.acquire t)
      { s with
        mutex := some ⟨t, c, true⟩
        callers := Function.update (Function.update s.callers t caller) t .inside } := by
    simp only [Step, next, acquire, hmutex, Function.update_self, hentry]
  exact ⟨_, .cons hcall (.single hacquire), rfl, rfl, true, rfl⟩

theorem Inside.proceed (h : s.Inside t m requests c)
    (hadvance : m.advance requests c = some (m', c')) :
    ∃ s', Step s (.proceed t) s' ∧ s'.Inside t m' requests c' := by
  obtain ⟨rfl, rfl, untouched, hmutex⟩ := h
  have hproceed : Step s (.proceed t)
      { s with members := m', mutex := some ⟨t, c', untouched && (m' == s.members)⟩ } := by
    simp only [Step, next, Lifecycle.proceed, hmutex, Option.bind_eq_bind, Option.bind_some,
      if_true, hadvance]
    rfl
  exact ⟨_, hproceed, rfl, rfl, _, rfl⟩

theorem Inside.release (h : s.Inside t m requests c)
    (hleaving : c = .waitLeaving ∨ ∃ n found worker, c = .runLeaving n found worker) :
    ∃ s', Step s (.release t) s' ∧ s'.Left t m := by
  obtain ⟨rfl, rfl, untouched, hmutex⟩ := h
  rcases hleaving with rfl | ⟨n, found, worker, rfl⟩
  · have hrelease : Step s (.release t)
        { s with mutex := none, callers := Function.update s.callers t .outside } := by
      simp only [Step, next, Lifecycle.release, hmutex, Option.bind_eq_bind, Option.bind_some,
        if_true]
      rfl
    exact ⟨_, hrelease, rfl, rfl, Function.update_self ..⟩
  · have hrelease : Step s (.release t)
        { s with
          mutex := none
          callers := Function.update s.callers t .outside
          runs := s.runs ++ [⟨n, found, worker, untouched⟩] } := by
      simp only [Step, next, Lifecycle.release, hmutex, Option.bind_eq_bind, Option.bind_some,
        if_true]
      rfl
    exact ⟨_, hrelease, rfl, rfl, Function.update_self ..⟩

/-- A run with something to do starts a worker. -/
theorem Resting.run (h : s.Resting t) {n : Int} (hn : 0 < n) :
    ∃ s', Execution Step s (runEvents t n) s' ∧
      s'.Working t s.members.workers (Worker.new n s.requests s.members.completedCycles) := by
  have haccept : s.members.advance s.requests (.runLocked n) =
      some (s.members, .runAdmitted n) := by
    simp [Members.advance, h.lifecycleState, hn]
  obtain ⟨s₀, henter, hinside⟩ := enter h.mutex h.caller (rfl : (Caller.wantsRun n).entry = _)
  obtain ⟨s₁, hadmitted, hinside⟩ := hinside.proceed haccept
  obtain ⟨s₂, hcleared, hinside⟩ := hinside.proceed rfl
  obtain ⟨s₃, hmarked, hinside⟩ := hinside.proceed rfl
  obtain ⟨s₄, hcreated, hinside⟩ := hinside.proceed rfl
  obtain ⟨s₅, hassigned, hinside⟩ :=
    hinside.proceed (Members.advance_of_thread_none h.thread)
  obtain ⟨s₆, hleft, hmembers, hmutex, hcaller⟩ := hinside.release (.inr ⟨_, _, _, rfl⟩)
  refine ⟨s₆, henter.append (.cons hadmitted (.cons hcleared (.cons hmarked (.cons hcreated
    (.cons hassigned (.single hleft)))))), ?_⟩
  exact ⟨by rw [hmembers], by rw [hmembers], by rw [hmembers], hmutex, hcaller⟩

/-- A wait for a worker that has returned joins it. -/
theorem Working.wait (h : s.Working t earlier w) (hended : w.stage = .ended) :
    ∃ s', Execution Step s (waitEvents t) s' ∧ s'.Resting t ∧
      s'.members.workers = earlier ++ [{ w with joined := true }] := by
  have hlatest : s.members.workers[earlier.length]? = some w := by
    rw [h.workers, List.getElem?_concat_length]
  have hjoin : s.members.advance s.requests .waitLocked =
      some (s.members.join earlier.length, .waitJoined) := by
    simp [Members.advance, h.thread, Members.hasEnded, hlatest, hended]
  obtain ⟨s₀, henter, hinside⟩ := enter h.mutex h.caller (rfl : Caller.wantsWait.entry = _)
  obtain ⟨s₁, hjoined, hinside⟩ := hinside.proceed hjoin
  obtain ⟨s₂, hidle, hinside⟩ := hinside.proceed rfl
  obtain ⟨s₃, hleft, hmembers, hmutex, hcaller⟩ := hinside.release (.inl rfl)
  refine ⟨s₃, henter.append (.cons hjoined (.cons hidle (.single hleft))), ?_, ?_⟩
  · exact ⟨by rw [hmembers], by rw [hmembers]; rfl, hmutex, hcaller⟩
  · rw [hmembers]
    simp only [Members.join, h.workers]
    exact List.modifyTailIdx_add _ 0 earlier [w]

/-! ## The worker alone -/

/-- A step of the worker. -/
theorem Working.work (h : s.Working t earlier w) (hnext : w.next false s.requests = some w') :
    ∃ s', Step s (.work earlier.length) s' ∧ s'.Working t earlier w' := by
  obtain ⟨hworkers, hthread, hstop, hmutex, hcaller⟩ := h
  have hlatest : s.members.workers[earlier.length]? = some w := by
    rw [hworkers, List.getElem?_concat_length]
  have hset : s.members.workers.set earlier.length w' = earlier ++ [w'] := by
    rw [hworkers, List.set_append_right _ _ (Nat.le_refl _), Nat.sub_self]
    rfl
  rw [← hstop] at hnext
  obtain ⟨m', hwork⟩ : ∃ m', s.members.work s.requests earlier.length = some m' := by
    simp only [Members.work, hlatest, hnext, Option.bind_eq_bind, Option.bind_some]
    cases w.stage <;> exact ⟨_, rfl⟩
  obtain ⟨v, v', hv, hv', hworkers', hthread', hstop', -⟩ := Members.work_cases hwork
  obtain rfl : w = v := Option.some.inj (hlatest.symm.trans hv)
  obtain rfl : w' = v' := Option.some.inj (hnext.symm.trans hv')
  refine ⟨{ s with members := m' }, ?_, ?_⟩
  · exact congrArg (Option.map _) hwork
  · exact ⟨hworkers'.trans hset, hthread'.trans hthread, hstop'.trans hstop, hmutex, hcaller⟩

/-- Within its loop, a worker with `j` cycles left executes them. -/
theorem Working.cycles (j : Nat) : ∀ {s : Lifecycle τ} {w : Worker} {i : Nat},
    s.Working t earlier (w.loopHead i) → w.stopToken = false → w.cycleCount = i + j →
      ∃ (k : Nat) (s' : Lifecycle τ) (w' : Worker),
        Execution Step s (List.replicate k (.work earlier.length)) s' ∧
          s'.Working t earlier w' ∧ w'.stage = .finishing ∧ w'.cycleCount = w.cycleCount ∧
          w'.executed = w.executed + j := by
  induction j with
  | zero =>
      intro s w i h _ hcycles
      have hdone : ¬ (i : Int) < w.cycleCount := by omega
      exact ⟨0, s, w.loopHead i, .refl s, h, if_neg hdone, rfl, rfl⟩
  | succ j ih =>
      intro s w i h htoken hcycles
      have hmore : (i : Int) < w.cycleCount := by omega
      have hhead : w.loopHead i = { w with stage := .checkingToken i } := by
        rw [Worker.loopHead, if_pos hmore]
      rw [hhead] at h
      have hnotStopped : ∀ requests, ({ w with stage := .checkingToken i } : Worker).next false
          requests = some { w with stage := .checkingFlag i } := by
        intro requests
        simp [Worker.next, htoken]
      obtain ⟨s₁, htokenChecked, h⟩ := h.work (hnotStopped _)
      obtain ⟨s₂, hflagChecked, h⟩ := h.work rfl
      obtain ⟨s₃, hupdated, h⟩ := h.work rfl
      obtain ⟨k, s', w', hexec, hworking, hstage, hcycles', hexecuted⟩ :=
        ih h htoken (by simp only [hcycles]; omega)
      refine ⟨k + 3, s', w', ?_, hworking, hstage, hcycles', ?_⟩
      · exact .cons htokenChecked (.cons hflagChecked (.cons hupdated hexec))
      · rw [hexecuted]
        simp only
        omega

/-- A new worker executes all its cycles and returns. -/
theorem Working.finish {n : Int} {clearedAt : Nat} {startCount : BitVec 32} (hn : 0 < n)
    (h : s.Working t earlier (Worker.new n clearedAt startCount)) :
    ∃ (k : Nat) (s' : Lifecycle τ) (w' : Worker),
      Execution Step s (List.replicate k (.work earlier.length)) s' ∧
        s'.Working t earlier w' ∧ w'.stage = .ended ∧ (w'.executed : Int) = n := by
  obtain ⟨s₁, hstarted, h⟩ := h.work rfl
  obtain ⟨k, s₂, w, hexec, h, hstage, hcycles, hexecuted⟩ :=
    Working.cycles n.toNat h rfl (by simp [Worker.new]; omega)
  have hfinish : w.next false s₂.requests = some { w with stage := .ended } := by
    simp only [Worker.next, hstage]
  obtain ⟨s₃, hfinished, h⟩ := h.work hfinish
  refine ⟨k + 2, s₃, _, ?_, h, rfl, ?_⟩
  · have hall := (Execution.cons hstarted hexec).snoc hfinished
    rwa [← List.replicate_succ, ← List.replicate_succ'] at hall
  · simp only [hexecuted, Worker.new]
    omega

/-- A run with something to do, the work of its worker, and a wait: every cycle of the run
has been executed, and the loop is idle again. -/
theorem Resting.round (h : s.Resting t) {n : Int} (hn : 0 < n) :
    ∃ (k : Nat) (s' : Lifecycle τ),
      Execution Step s (runEvents t n ++
        List.replicate k (.work s.members.workers.length) ++ waitEvents t) s' ∧
        s'.Resting t ∧
        (s'.members.executedCycles : Int) = s.members.executedCycles + n := by
  obtain ⟨s₁, hrun, hworking⟩ := h.run hn
  obtain ⟨k, s₂, w, hexec, hworking, hended, hexecuted⟩ := hworking.finish hn
  obtain ⟨s₃, hwait, hresting, hworkers⟩ := hworking.wait hended
  refine ⟨k, s₃, (hrun.append hexec).append hwait, hresting, ?_⟩
  rw [Members.executedCycles, hworkers, Members.executedCycles]
  simp [hexecuted]

end Lifecycle

end RobotController.Control
