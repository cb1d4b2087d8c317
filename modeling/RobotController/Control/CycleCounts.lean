/-
  Control/CycleCounts.lean --- how far the counters of the loop can count.

  Sources: `control/ControlLoop.hpp`, `control/ControlLoop.cpp` (`update`, `run`,
  `completedCycles`).

  The counters are of type `int` and go on from run to run, while only the length of a
  single run is bounded by the argument of `run`.  They are right as long as the runs
  together have no more cycles than an `int` can count.
-/
import RobotController.Control.History
import RobotController.Control.LifecycleProgress
import Mathlib.Algebra.Order.BigOperators.Group.List

set_option autoImplicit false

namespace RobotController.Control

open RobotController.Foundation RobotController.Scheduler

/-! ## The counters -/

/-- The greatest `int`. -/
def intMax : Nat := 2 ^ 31 - 1

namespace ControlLoop

variable {R : Type}

/-- `measured_cycles_`, and the statistics that count cycles: the members that are a plain
`int`, by their mathematical values.  The increment of such a member is undefined once the
result exceeds `intMax`. -/
def counters (measuredCycles : Nat) (s : TimingStatistics R) : List Nat :=
  [measuredCycles, s.delayedCycles, s.backlogCycles, s.consecutiveDelayedCycles,
    s.maxConsecutiveDelayedCycles, s.deadlineMisses, s.schedulingMisses, s.executionMisses,
    s.combinedMisses, s.delayUnder100us, s.delay100usTo1ms, s.delay1msTo5ms, s.delay5msTo10ms,
    s.delayOver10ms, s.processorChanges]

section Bounded

variable {n : Nat} {s : TimingStatistics R}

/-- No counter is ahead of the cycles. -/
structure Bounded (n : Nat) (s : TimingStatistics R) : Prop where
  balanced : Balanced n s
  misses : s.deadlineMisses ≤ n
  delayed : s.delayedCycles ≤ n
  backlog : s.backlogCycles ≤ n
  consecutive : s.consecutiveDelayedCycles ≤ n
  longest : s.maxConsecutiveDelayedCycles ≤ n
  changes : s.processorChanges ≤ n

theorem bounded_initial [Double R] : Bounded 0 (initialStatistics : TimingStatistics R) :=
  ⟨balanced_initial, le_rfl, le_rfl, le_rfl, le_rfl, le_rfl, le_rfl⟩

theorem Bounded.le (h : Bounded n s) :
    ∀ count ∈ counters n s, count ≤ n := by
  obtain ⟨⟨hdelays, hkinds⟩, hmisses, hdelayed, hbacklog, hconsecutive, hlongest, hchanges⟩ := h
  simp only [counters, List.forall_mem_cons, List.not_mem_nil, false_implies, implies_true,
    and_true]
  omega

variable [Double R] [IntConversion R]

/-- A cycle adds at most one to each counter. -/
theorem Bounded.takeStatistics (h : Bounded n s) (scheduler : IControlScheduler R)
    (readings : CycleReadings) :
    Bounded (n + 1) (takeStatistics scheduler n readings s) := by
  obtain ⟨hbalanced, hmisses, hdelayed, hbacklog, hconsecutive, hlongest, hchanges⟩ := h
  have hbegin := hbalanced.beginStatistics scheduler n readings.processor
    (beginTiming readings.scheduledStart readings.cycleStart)
  have hcontrol := hbegin.controlStatistics readings.controlStart readings.controlEnd
  refine ⟨hcontrol.endStatistics scheduler n _ _ _, ?_, ?_, ?_, ?_, ?_, ?_⟩ <;>
    rw [takeStatistics_eq]
  case refine_1 =>
    simp only [updateMissStatistics, apply_ite TimingStatistics.deadlineMisses, ite_self]
    split_ifs <;> omega
  case refine_6 =>
    simp only [updateProcessorStatistics, apply_ite TimingStatistics.processorChanges]
    split_ifs <;> omega
  all_goals
    simp only [updateDelayStatistics, apply_ite TimingStatistics.delayedCycles,
      apply_ite TimingStatistics.backlogCycles,
      apply_ite TimingStatistics.consecutiveDelayedCycles,
      apply_ite TimingStatistics.maxConsecutiveDelayedCycles]
    split_ifs <;> omega

theorem bounded_statisticsAfter (scheduler : IControlScheduler R) (cycle : Nat → CycleReadings)
    (n : Nat) : Bounded n (statisticsAfter scheduler cycle n) := by
  induction n with
  | zero => exact bounded_initial
  | succ n ih => exact ih.takeStatistics scheduler (cycle n)

end Bounded

end ControlLoop

/-! ## What is asked of the loop -/

/-- The cycles a call asks for. -/
def Caller.asked : Caller → List Int
  | .wantsRun n => [n]
  | _ => []

/-- The cycles of a run that may still create its worker. -/
def Critical.asked : Critical → List Int
  | .runLocked n | .runAdmitted n | .runCleared n _ | .runMarked n _ => [n]
  | _ => []

namespace LifecycleEvent

variable {τ : Type}

/-- Whether an event asks something of the loop. -/
def isRequest : LifecycleEvent τ → Bool
  | .call _ _ | .requestStop => true
  | _ => false

/-- The cycles an event asks for. -/
def asked : LifecycleEvent τ → List Int
  | .call _ caller => caller.asked
  | _ => []

end LifecycleEvent

namespace Lifecycle

variable {τ : Type}

/-- `run(n₁)`, `wait()`, `run(n₂)`, `wait()` and so on, called by `t`. -/
def rounds (t : τ) (cycleCounts : List Int) : List (LifecycleEvent τ) :=
  cycleCounts.flatMap fun n => [.call t (.wantsRun n), .call t .wantsWait]

/-- What is asked of the loop in an execution is the beginning of these rounds. -/
def FollowsRounds (t : τ) (cycleCounts : List Int) (trace : List (LifecycleEvent τ)) : Prop :=
  trace.filter LifecycleEvent.isRequest <+: rounds t cycleCounts

/-- The rounds ask for their cycles. -/
theorem asked_rounds (t : τ) (cycleCounts : List Int) :
    (rounds t cycleCounts).flatMap LifecycleEvent.asked = cycleCounts := by
  induction cycleCounts with
  | nil => rfl
  | cons n rest ih =>
      rw [rounds, List.flatMap_cons, List.flatMap_append]
      exact congrArg (n :: ·) ih

theorem asked_filter (trace : List (LifecycleEvent τ)) :
    (trace.filter LifecycleEvent.isRequest).flatMap LifecycleEvent.asked =
      trace.flatMap LifecycleEvent.asked := by
  induction trace with
  | nil => rfl
  | cons event rest ih =>
      cases event with
      | call t caller =>
          rw [List.filter_cons_of_pos rfl, List.flatMap_cons, List.flatMap_cons, ih]
      | requestStop =>
          rw [List.filter_cons_of_pos rfl, List.flatMap_cons, List.flatMap_cons, ih]
      | _ => exact ih

end Lifecycle

/-! ## The cycles of all workers -/

namespace Members

variable {m m' : Members} {requests i : Nat} {c c' : Critical}

theorem map_modify_of_eq {α : Type} {f : Worker → α} {change : Worker → Worker}
    (h : ∀ w, f (change w) = f w) (workers : List Worker) (i : Nat) :
    (workers.modify i change).map f = workers.map f := by
  refine List.ext_getElem? fun j => ?_
  rw [List.getElem?_map, List.getElem?_map, List.getElem?_modify]
  cases workers[j]? with
  | none => rfl
  | some w =>
      simp only [Option.map_some, Option.map_eq_map]
      split_ifs
      · rw [h]
      · rfl

/-- What the holder of the mutex leaves of the workers: nothing it does touches their cycles,
and a worker it creates is the last. -/
theorem map_workers_of_advance {α : Type} {f : Worker → α}
    (hstop : ∀ w : Worker, f { w with stopToken := true } = f w)
    (hjoin : ∀ w : Worker, f { w with joined := true } = f w)
    (h : Advances m requests c m' c') :
    m'.workers.map f = m.workers.map f ∨
      ∃ n clearedAt, c = .runMarked n clearedAt ∧ c' = .runCreated n m.workers.length ∧
        m'.workers.map f =
          m.workers.map f ++ [f (Worker.new n clearedAt m.completedCycles)] := by
  cases h with
  | create => exact .inr ⟨_, _, rfl, rfl, List.map_append⟩
  | replace _ => exact .inl (map_modify_of_eq hstop _ _)
  | replaced _ => exact .inl (map_modify_of_eq hjoin _ _)
  | join _ _ => exact .inl (map_modify_of_eq hjoin _ _)
  | _ => exact .inl rfl

/-- A run creates a worker for what it was asked for. -/
theorem asked_of_advance (h : Advances m requests c m' c') :
    List.Sublist (m'.workers.map Worker.cycleCount ++ c'.asked)
      (m.workers.map Worker.cycleCount ++ c.asked) := by
  rcases map_workers_of_advance (f := Worker.cycleCount) (fun _ => rfl) (fun _ => rfl) h with
    hsame | ⟨n, clearedAt, rfl, rfl, hcreated⟩
  · rw [hsame]
    refine (List.Sublist.refl _).append ?_
    cases h <;> simp [Critical.asked]
  · rw [hcreated]
    simp [Critical.asked, Worker.new]

/-- A worker keeps what it was created for. -/
theorem cycleCounts_of_work (h : m.work requests i = some m') :
    m'.workers.map Worker.cycleCount = m.workers.map Worker.cycleCount := by
  obtain ⟨w, w', hw, hnext, hworkers, -⟩ := work_cases h
  obtain ⟨hlt, rfl⟩ := List.getElem?_eq_some_iff.mp hw
  have hlt' : i < (m.workers.map Worker.cycleCount).length := by rwa [List.length_map]
  have hsame := List.set_getElem_self hlt'
  rw [List.getElem_map] at hsame
  rw [hworkers, List.map_set, (Worker.next_frame hnext).1, hsame]

/-- The holder of the mutex executes no cycle. -/
theorem executedCycles_of_advance (h : Advances m requests c m' c') :
    m'.executedCycles = m.executedCycles := by
  unfold executedCycles
  rcases map_workers_of_advance (f := Worker.executed) (fun _ => rfl) (fun _ => rfl) h with
    hsame | ⟨n, clearedAt, -, -, hcreated⟩
  · rw [hsame]
  · rw [hcreated, List.sum_append, List.sum_singleton]
    rfl

/-- A worker executes the cycles it counts. -/
theorem executedCycles_of_work (h : m.work requests i = some m') :
    ∃ k, m'.executedCycles = m.executedCycles + k ∧
      m'.measuredCycles = m.measuredCycles + k := by
  obtain ⟨w, w', hw, -, hworkers, -, -, -, hcount⟩ := work_cases h
  have hentry : (m.workers.map Worker.executed)[i]? = some w.executed := by
    rw [List.getElem?_map, hw]
    rfl
  have hsum := sum_set (y := w'.executed) hentry
  rw [← List.map_set, ← hworkers] at hsum
  unfold executedCycles
  rcases hcount with ⟨hexecuted, -, hmeasured⟩ | ⟨hexecuted, -, hmeasured⟩
  · exact ⟨0, by omega, hmeasured⟩
  · exact ⟨1, by omega, hmeasured⟩

end Members

variable {τ : Type} [DecidableEq τ]

namespace Lifecycle

variable {s s' : Lifecycle τ} {event : LifecycleEvent τ} {t : τ}

/-- A step counts the cycles it executes. -/
theorem counted_of_step (h : Step s event s') :
    ∃ k, s'.members.executedCycles = s.members.executedCycles + k ∧
      s'.members.measuredCycles = s.members.measuredCycles + k := by
  cases event with
  | call u caller =>
      obtain rfl := call_cases h
      exact ⟨0, rfl, rfl⟩
  | requestStop =>
      obtain rfl := Option.some.inj h
      exact ⟨0, rfl, rfl⟩
  | acquire u =>
      obtain ⟨c, -, -, rfl⟩ := acquire_cases h
      exact ⟨0, rfl, rfl⟩
  | proceed u =>
      obtain ⟨c, untouched, m', c', -, hadvances, rfl⟩ := proceed_cases h
      refine ⟨0, Members.executedCycles_of_advance hadvances, ?_⟩
      cases hadvances <;> rfl
  | release u =>
      obtain ⟨c, untouched, -, ⟨n, found, worker, -, rfl⟩ | ⟨-, rfl⟩⟩ := release_cases h
      · exact ⟨0, rfl, rfl⟩
      · exact ⟨0, rfl, rfl⟩
  | work i =>
      obtain ⟨m', hm, rfl⟩ := Option.map_eq_some_iff.mp h
      exact Members.executedCycles_of_work hm

/-- `measured_cycles_` counts the cycles that have been executed. -/
theorem Reached.executedCycles_eq (h : s.Reached) :
    s.members.executedCycles = s.members.measuredCycles := by
  refine h.invariant (fun s => s.members.executedCycles = s.members.measuredCycles) ?_ ?_
  · rintro start rfl
    rfl
  · intro s event s' hs hstep
    obtain ⟨k, hexecuted, hmeasured⟩ := counted_of_step hstep
    rw [hexecuted, hmeasured, hs]

theorem executedCycles_mono {trace : List (LifecycleEvent τ)} (h : Execution Step s trace s') :
    s.members.executedCycles ≤ s'.members.executedCycles := by
  induction h with
  | refl _ => exact le_rfl
  | cons hstep _ ih =>
      obtain ⟨k, hexecuted, -⟩ := counted_of_step hstep
      exact (Nat.le_add_right _ k).trans (hexecuted ▸ ih)

/-- No worker executes more cycles than it was created for. -/
theorem Reached.executedCycles_le (h : s.Reached) :
    (s.members.executedCycles : Int) ≤ s.members.acceptedCycles := by
  have heach : ∀ w ∈ s.members.workers, (w.executed : Int) ≤ w.cycleCount := by
    intro w hw
    obtain ⟨i, hi⟩ := List.getElem?_of_mem hw
    exact (h.orderly.consistent.worker i w hi).sound.executed_le
  unfold Members.executedCycles Members.acceptedCycles
  rw [Nat.cast_list_sum, List.map_map]
  exact List.sum_le_sum heach

/-- While the cycles fit an `int`, the count reported is theirs. -/
theorem Reached.completedCycles_eq (h : s.Reached) (hfits : s.members.executedCycles ≤ intMax) :
    s.completedCycles = s.members.executedCycles := by
  have hlt : s.members.executedCycles < 2 ^ 31 := Nat.lt_succ_of_le hfits
  have hmod : s.members.executedCycles % 2 ^ 32 = s.members.executedCycles :=
    Nat.mod_eq_of_lt (by omega)
  rw [completedCycles, h.orderly.consistent.measured, ← h.executedCycles_eq,
    BitVec.toInt_eq_toNat_of_lt (by rw [BitVec.toNat_ofNat, hmod]; omega), BitVec.toNat_ofNat,
    hmod]

/-! ## One thread that runs and waits in turn -/

/-- Nobody but `t` calls the loop, and what its workers were created for, or may still be,
has been asked for. -/
structure Asked (t : τ) (requested : List Int) (s : Lifecycle τ) : Prop where
  others : ∀ u, u ≠ t → s.callers u = .outside
  created : List.Sublist (s.members.workers.map Worker.cycleCount ++
    s.critical.elim [] Critical.asked ++ (s.callers t).asked) requested

variable {requested : List Int}

theorem Asked.call {u : τ} {caller : Caller} (h : s.Asked u requested)
    (hcall : s.call u caller = some s') : s'.Asked u (requested ++ caller.asked) := by
  have hguard : s.callers u = .outside ∧ caller.entry.isSome := by
    by_contra hnot
    exact nomatch (if_neg hnot).symm.trans hcall
  obtain ⟨hothers, hcreated⟩ := h
  obtain rfl := call_cases hcall
  refine ⟨fun v hv => (Function.update_of_ne hv _ _).trans (hothers v hv), ?_⟩
  simp only [hguard.1, Caller.asked, List.append_nil] at hcreated
  simp only [Function.update_self]
  exact hcreated.append (List.Sublist.refl _)

theorem asked_of_entry {caller : Caller} {c : Critical} (h : caller.entry = some c) :
    c.asked = caller.asked := by
  cases caller <;> simp only [Caller.entry, reduceCtorEq, Option.some.injEq] at h <;> subst h <;>
    rfl

theorem Asked.acquire {u : τ} (h : s.Asked t requested) (hacquire : s.acquire u = some s') :
    s'.Asked t requested := by
  obtain ⟨hothers, hcreated⟩ := h
  obtain ⟨c, hmutex, hentry, rfl⟩ := acquire_entry hacquire
  have hsame : u = t := by
    by_contra hne
    simp [hothers u hne, Caller.entry] at hentry
  subst hsame
  refine ⟨fun v hv => (Function.update_of_ne hv _ _).trans (hothers v hv), ?_⟩
  have hfree : s.critical = none := by simp [critical, hmutex]
  rw [hfree, ← asked_of_entry hentry] at hcreated
  simpa [critical, Caller.asked] using hcreated

theorem Asked.release {u : τ} (h : s.Asked t requested) (hrelease : s.release u = some s') :
    s'.Asked t requested := by
  obtain ⟨hothers, hcreated⟩ := h
  obtain ⟨c, untouched, -, hcases⟩ := release_cases hrelease
  have hrest : ∀ v, v ≠ t → Function.update s.callers u Caller.outside v = .outside := by
    intro v hv
    rcases eq_or_ne v u with rfl | hne
    · exact Function.update_self ..
    · exact (Function.update_of_ne hne _ _).trans (hothers v hv)
  have hasked : List.Sublist (Function.update s.callers u Caller.outside t).asked
      (s.callers t).asked := by
    rcases eq_or_ne t u with rfl | hne
    · simp [Caller.asked]
    · rw [Function.update_of_ne hne]
  have hcreated' := ((List.Sublist.refl (s.members.workers.map Worker.cycleCount)).append
    (List.nil_sublist (s.critical.elim [] Critical.asked))).append hasked
  rcases hcases with ⟨n, found, worker, -, rfl⟩ | ⟨-, rfl⟩
  · exact ⟨hrest, hcreated'.trans hcreated⟩
  · exact ⟨hrest, hcreated'.trans hcreated⟩

/-- A step asks for no more than its call does. -/
theorem Asked.step (h : s.Asked t requested) (hstep : Step s event s')
    (hcaller : ∀ u caller, event = .call u caller → u = t) :
    s'.Asked t (requested ++ event.asked) := by
  cases event with
  | call u caller =>
      obtain rfl := hcaller u caller rfl
      exact h.call hstep
  | requestStop =>
      obtain rfl := Option.some.inj hstep
      simp only [LifecycleEvent.asked, List.append_nil]
      exact ⟨h.others, h.created⟩
  | acquire u =>
      simp only [LifecycleEvent.asked, List.append_nil]
      exact h.acquire hstep
  | proceed u =>
      obtain ⟨c, untouched, m', c', hmutex, hadvances, rfl⟩ := proceed_cases hstep
      have hcreated := h.created
      have hcritical : s.critical = some c := by simp [critical, hmutex]
      rw [hcritical] at hcreated
      simp only [LifecycleEvent.asked, List.append_nil]
      refine ⟨h.others, ?_⟩
      exact ((Members.asked_of_advance hadvances).append (List.Sublist.refl _)).trans hcreated
  | release u =>
      simp only [LifecycleEvent.asked, List.append_nil]
      exact h.release hstep
  | work i =>
      obtain ⟨m', hm, rfl⟩ := Option.map_eq_some_iff.mp hstep
      simp only [LifecycleEvent.asked, List.append_nil]
      refine ⟨h.others, ?_⟩
      have hcreated := h.created
      rwa [← Members.cycleCounts_of_work hm] at hcreated

theorem Asked.execution {trace : List (LifecycleEvent τ)} (hexec : Execution Step s trace s') :
    ∀ {requested : List Int}, s.Asked t requested →
      (∀ u caller, .call u caller ∈ trace → u = t) →
        s'.Asked t (requested ++ trace.flatMap LifecycleEvent.asked) := by
  induction hexec with
  | refl _ =>
      intro requested h _
      simpa using h
  | cons hstep _ ih =>
      intro requested h hcallers
      have hfirst := h.step hstep fun u caller heq => hcallers u caller (heq ▸ List.mem_cons_self)
      have hall := ih hfirst fun u caller hmem => hcallers u caller (List.mem_cons_of_mem _ hmem)
      simpa only [List.flatMap_cons, List.append_assoc] using hall

/-- Rounds of one thread accept no more cycles than they ask for. -/
theorem acceptedCycles_le {cycleCounts : List Int} {trace : List (LifecycleEvent τ)}
    (hpositive : ∀ n ∈ cycleCounts, 0 < n) (hexec : Execution Step initial trace s)
    (hrounds : FollowsRounds t cycleCounts trace) :
    s.members.acceptedCycles ≤ cycleCounts.sum := by
  have hcallers : ∀ u caller, .call u caller ∈ trace → u = t := by
    intro u caller hmem
    have hfollowed : .call u caller ∈ rounds t cycleCounts :=
      hrounds.subset (List.mem_filter.mpr ⟨hmem, rfl⟩)
    obtain ⟨n, -, hcall⟩ := List.mem_flatMap.mp hfollowed
    simp only [List.mem_cons, LifecycleEvent.call.injEq, List.not_mem_nil, or_false] at hcall
    rcases hcall with ⟨hsame, -⟩ | ⟨hsame, -⟩ <;> exact hsame
  have hasked := (Asked.execution hexec ⟨fun _ _ => rfl, .slnil⟩ hcallers).created
  rw [List.nil_append, ← asked_filter, List.append_assoc] at hasked
  have hcreated : List.Sublist (s.members.workers.map Worker.cycleCount) cycleCounts := by
    have hrest := (hrounds.flatMap LifecycleEvent.asked).sublist
    rw [asked_rounds] at hrest
    exact ((List.sublist_append_left _ _).trans hasked).trans hrest
  exact hcreated.sum_le_sum fun n hn => (hpositive n hn).le

/-- Whatever the rounds, they can be followed to their end, with every cycle executed. -/
theorem Resting.exists_rounds {cycleCounts : List Int} (hpositive : ∀ n ∈ cycleCounts, 0 < n) :
    ∀ {s : Lifecycle τ}, s.Resting t → ∃ trace s', Execution Step s trace s' ∧
      trace.filter LifecycleEvent.isRequest = rounds t cycleCounts ∧
      (s'.members.executedCycles : Int) = s.members.executedCycles + cycleCounts.sum := by
  induction cycleCounts with
  | nil =>
      intro s _
      exact ⟨[], s, .refl s, rfl, by simp⟩
  | cons n rest ih =>
      intro s h
      rw [List.forall_mem_cons] at hpositive
      obtain ⟨k, s₁, hround, hresting, hexecuted⟩ := h.round hpositive.1
      obtain ⟨trace, s₂, hexec, hrequests, htotal⟩ := ih hpositive.2 hresting
      refine ⟨_, s₂, hround.append hexec, ?_, ?_⟩
      · rw [List.filter_append, hrequests, List.filter_append, List.filter_append,
          List.filter_replicate]
        rfl
      · rw [htotal, hexecuted, List.sum_cons]
        omega

end Lifecycle

/-! ## The counts of the loop -/

namespace ControlLoop

open Lifecycle

variable {R : Type} [Double R] [IntConversion R]

/-- The counts of a loop whose cycles have read `cycle` so far are what they are meant to
be: `completedCycles()` is the total of the completed cycles, and no increment has taken
a plain `int` beyond its range. -/
structure CountsRight (scheduler : IControlScheduler R) (cycle : Nat → CycleReadings)
    (s : Lifecycle τ) : Prop where
  completed : s.completedCycles = s.members.executedCycles
  counters_le : ∀ count ∈ counters s.members.measuredCycles
    (statisticsAfter scheduler cycle s.members.measuredCycles), count ≤ intMax

/-- In every execution of these rounds, whatever the cycles read, the counts are right at
every moment and `completedCycles()` never decreases. -/
def CountsStayRight (scheduler : IControlScheduler R) (t : τ) (cycleCounts : List Int) : Prop :=
  ∀ (cycle : Nat → CycleReadings) (first second : List (LifecycleEvent τ)) (s s' : Lifecycle τ),
    Execution Step initial first s → Execution Step s second s' →
      FollowsRounds t cycleCounts (first ++ second) →
        CountsRight scheduler cycle s' ∧ s.completedCycles ≤ s'.completedCycles

/-- Whoever calls and stops the loop: the counts are right as long as the accepted runs
together have no more cycles than an `int` can count. -/
theorem countsRight_of_le (scheduler : IControlScheduler R) (cycle : Nat → CycleReadings)
    {s : Lifecycle τ} (h : s.Reached) (hfits : s.members.acceptedCycles ≤ intMax) :
    CountsRight scheduler cycle s := by
  have hexecuted : s.members.executedCycles ≤ intMax := by
    have hle := h.executedCycles_le.trans hfits
    exact_mod_cast hle
  refine ⟨h.completedCycles_eq hexecuted, fun count hcount => ?_⟩
  have hbounded := (bounded_statisticsAfter scheduler cycle s.members.measuredCycles).le
  rw [← h.executedCycles_eq] at hbounded hcount
  exact (hbounded count hcount).trans hexecuted

/-- When the counts of the loop are right, for all rounds of runs with something to do:
exactly when the cycles of all runs together are no more than an `int` can count. -/
theorem counts_stay_right_iff (scheduler : IControlScheduler R) (t : τ) (cycleCounts : List Int)
    (hpositive : ∀ n ∈ cycleCounts, 0 < n) :
    CountsStayRight scheduler t cycleCounts ↔ cycleCounts.sum ≤ intMax := by
  constructor
  · intro h
    obtain ⟨trace, s, hexec, hrequests, htotal⟩ :=
      Resting.exists_rounds hpositive (resting_initial t)
    have hrounds : FollowsRounds t cycleCounts (trace ++ []) := by
      rw [FollowsRounds, List.append_nil, hrequests]
    obtain ⟨⟨hcompleted, -⟩, -⟩ :=
      h (fun _ => ⟨-1, 0, 0, 0, 0, 0, 0, 0⟩) trace [] s s hexec (.refl s) hrounds
    have hlt := BitVec.toInt_lt (x := s.members.completedCycles)
    rw [completedCycles, htotal] at hcompleted
    simp only [Members.executedCycles, Members.initial, initial, intMax] at hcompleted ⊢
    omega
  · intro hfits cycle first second s s' hfirst hsecond hrounds
    have hbefore : FollowsRounds t cycleCounts first := by
      rw [FollowsRounds, List.filter_append] at hrounds
      exact (List.prefix_append _ _).trans hrounds
    have hreached : s.Reached := ⟨initial, first, rfl, hfirst⟩
    have hreached' : s'.Reached := hreached.execution hsecond
    have hright := countsRight_of_le scheduler cycle hreached
      ((acceptedCycles_le hpositive hfirst hbefore).trans hfits)
    have hright' := countsRight_of_le scheduler cycle hreached'
      ((acceptedCycles_le hpositive (hfirst.append hsecond) hrounds).trans hfits)
    refine ⟨hright', ?_⟩
    rw [hright.completed, hright'.completed]
    exact_mod_cast executedCycles_mono hsecond

/-- Two runs of two and three thousand cycles. -/
theorem counts_stay_right_twice :
    CountsStayRight (R := ℚ) (⟨1, 0⟩ : PortableControlScheduler).toIControlScheduler ()
      [2000, 3000] :=
  (counts_stay_right_iff _ () [2000, 3000] (by decide)).mpr (by decide)

/-- After a run of 2147483647 cycles, the cycle of another run takes `completedCycles()` to
-2147483648 and `measured_cycles_` beyond its range. -/
theorem counts_wrap_around :
    (∃ (trace : List (LifecycleEvent Unit)) (s : Lifecycle Unit),
        Execution Step initial trace s ∧ FollowsRounds () [2147483647, 1] trace ∧
          s.members.executedCycles = 2147483648 ∧ s.completedCycles = -2147483648 ∧
          intMax < s.members.measuredCycles) ∧
      ¬ CountsStayRight (R := ℚ) (⟨1, 0⟩ : PortableControlScheduler).toIControlScheduler ()
        [2147483647, 1] := by
  have hpositive : ∀ n ∈ ([2147483647, 1] : List Int), 0 < n := by decide
  obtain ⟨trace, s, hexec, hrequests, htotal⟩ :=
    Resting.exists_rounds hpositive (resting_initial ())
  have hreached : s.Reached := ⟨initial, trace, rfl, hexec⟩
  have hexecuted : s.members.executedCycles = 2147483648 :=
    Int.ofNat_inj.mp (htotal.trans (by decide))
  have hmeasured := hreached.executedCycles_eq.symm.trans hexecuted
  have hcompleted : s.completedCycles = -2147483648 := by
    rw [completedCycles, hreached.orderly.consistent.measured, hmeasured]
    decide
  have hrounds : FollowsRounds () [2147483647, 1] trace := by
    rw [FollowsRounds, hrequests]
  refine ⟨⟨trace, s, hexec, hrounds, hexecuted, hcompleted, ?_⟩, fun h => ?_⟩
  · rw [hmeasured]
    decide
  · rw [← List.append_nil trace] at hrounds
    obtain ⟨hright, -⟩ :=
      h (fun _ => ⟨-1, 0, 0, 0, 0, 0, 0, 0⟩) trace [] s s hexec (.refl s) hrounds
    rw [hright.completed, hexecuted] at hcompleted
    exact absurd hcompleted (by decide)

end ControlLoop

end RobotController.Control
