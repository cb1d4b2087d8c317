/-
  Control/LifecycleLiveness.lean --- the three states mean what they say, and calls return.

  Sources: `control/ControlLoop.hpp`, `control/ControlLoop.cpp` (`run`, `wait`,
  `requestStop`), `README.md`.

  The lifecycle goes round from idle to running to finished and back, and outside the
  critical sections it tells whether there is a worker to join and whether that worker has
  returned.  Every call brings a bounded amount of work with it; where no work is left, every
  call has returned and every worker has ended.  So no interleaving of calls can block the
  loop for good.
-/
import RobotController.Control.CycleCounts
import RobotController.Control.LifecycleInvariant
import RobotController.Foundation.Amortized

set_option autoImplicit false

namespace RobotController.Control

open RobotController.Foundation

/-! ## What the lifecycle state says -/

theorem Worker.loopHead_ne_ended (w : Worker) (i : Nat) : (w.loopHead i).stage ≠ .ended := by
  unfold loopHead
  split <;> simp

/-- A worker returns from its last store. -/
theorem Worker.next_ended_iff {w w' : Worker} {stopRequested : Bool} {requests : Nat}
    (h : w.next stopRequested requests = some w') : w'.stage = .ended ↔ w.stage = .finishing := by
  unfold next at h
  cases hstage : w.stage with
  | starting =>
      rw [hstage] at h
      obtain rfl := Option.some.inj h
      exact iff_of_false (w.loopHead_ne_ended 0) (by simp)
  | checkingToken i =>
      rw [hstage] at h
      obtain rfl := Option.some.inj h
      refine iff_of_false ?_ (by simp)
      dsimp only
      split <;> simp
  | checkingFlag i =>
      rw [hstage] at h
      obtain rfl := Option.some.inj h
      refine iff_of_false ?_ (by simp)
      dsimp only
      split <;> simp
  | updating i =>
      rw [hstage] at h
      obtain rfl := Option.some.inj h
      exact iff_of_false (loopHead_ne_ended _ (i + 1)) (by simp)
  | finishing =>
      rw [hstage] at h
      obtain rfl := Option.some.inj h
      exact iff_of_true rfl rfl
  | ended => simp [hstage] at h

namespace Members

/-- There is a worker to join, and whether it has returned. -/
def Unjoined (m : Members) (critical : Option Critical) (ended : Prop) : Prop :=
  ∃ i w, m.current critical = some i ∧ m.workers[i]? = some w ∧ (w.stage = .ended ↔ ended)

/-- Running: a run has been marked and has not created its worker yet, or its worker has not
returned.  Finished: the worker has returned, or has been joined by a wait that has not noted
it yet. -/
structure Truthful (m : Members) (critical : Option Critical) : Prop where
  running : m.lifecycleState = .running →
    (∃ n clearedAt, critical = some (.runMarked n clearedAt)) ∨ m.Unjoined critical False
  finished : m.lifecycleState = .finished →
    critical = some .waitJoined ∨ m.Unjoined critical True

variable {m m' : Members} {requests i : Nat} {critical : Option Critical} {c c' : Critical}

theorem truthful_initial : initial.Truthful none := ⟨by simp [initial], by simp [initial]⟩

theorem Truthful.relocate (h : m.Truthful critical) {critical' : Option Critical}
    (hcurrent : m.current critical' = m.current critical)
    (hmarked : ∀ n clearedAt, critical ≠ some (.runMarked n clearedAt))
    (hjoined : critical ≠ some .waitJoined) : m.Truthful critical' := by
  constructor
  · intro hrunning
    rcases h.running hrunning with ⟨n, clearedAt, heq⟩ | hunjoined
    · exact absurd heq (hmarked n clearedAt)
    · right
      unfold Unjoined
      rwa [hcurrent]
  · intro hfinished
    rcases h.finished hfinished with heq | hunjoined
    · exact absurd heq hjoined
    · right
      unfold Unjoined
      rwa [hcurrent]

/-- A live worker has been marked as running. -/
theorem Truthful.running_of_live (h : m.Truthful critical)
    (hconsistent : m.Consistent requests critical) {w : Worker} (hw : m.workers[i]? = some w)
    (hlive : w.stage ≠ .ended) :
    m.lifecycleState = .running ∧ m.current critical = some i := by
  have haccounted := hconsistent.worker i w hw
  have hunjoined : w.joined = false := by
    by_contra hne
    exact hlive (haccounted.ended (by simpa using hne))
  have hcurrent := haccounted.unjoined.mp hunjoined
  refine ⟨?_, hcurrent⟩
  cases hstate : m.lifecycleState with
  | running => rfl
  | idle => simp [hconsistent.idle hstate] at hcurrent
  | finished =>
      rcases h.finished hstate with rfl | ⟨j, v, hj, hv, hended⟩
      · have hthread : m.thread = none := hconsistent.place _ rfl
        exact absurd (hthread.symm.trans hcurrent) (by simp)
      · obtain rfl : i = j := Option.some.inj (hcurrent.symm.trans hj)
        obtain rfl : w = v := Option.some.inj (hw.symm.trans hv)
        exact absurd (hended.mpr trivial) hlive

/-- A worker's step: it marks itself finished when it returns. -/
theorem lifecycleState_of_work (h : m.work requests i = some m') :
    ∃ w w', m.workers[i]? = some w ∧ w.stage ≠ .ended ∧ m'.workers = m.workers.set i w' ∧
      m'.thread = m.thread ∧
      (w'.stage = .ended ∧ m'.lifecycleState = .finished ∨
        w'.stage ≠ .ended ∧ m'.lifecycleState = m.lifecycleState) := by
  obtain ⟨w, w', hw, hnext, hworkers, hthread, -⟩ := work_cases h
  refine ⟨w, w', hw, Worker.stage_ne_ended hnext, hworkers, hthread, ?_⟩
  rw [ne_eq, Worker.next_ended_iff hnext]
  unfold work at h
  rw [hw, Option.bind_eq_bind, Option.bind_some, hnext, Option.bind_some] at h
  cases hstage : w.stage with
  | finishing =>
      rw [hstage] at h
      obtain rfl := Option.some.inj h
      exact .inl ⟨rfl, rfl⟩
  | _ =>
      rw [hstage] at h
      obtain rfl := Option.some.inj h
      exact .inr ⟨by simp, rfl⟩

theorem Truthful.work (h : m.Truthful critical) (hconsistent : m.Consistent requests critical)
    (hwork : m.work requests i = some m') : m'.Truthful critical := by
  obtain ⟨w, w', hw, hlive, hworkers, hthread, hstate⟩ := lifecycleState_of_work hwork
  obtain ⟨hrunning, hcurrent⟩ := h.running_of_live hconsistent hw hlive
  have hentry : m'.workers[i]? = some w' := by
    obtain ⟨hlt, -⟩ := List.getElem?_eq_some_iff.mp hw
    rw [hworkers, List.getElem?_set_self hlt]
  have hcurrent' : m'.current critical = some i := (current_eq hthread critical).trans hcurrent
  rcases hstate with ⟨hended, hfinished⟩ | ⟨hnot, hsame⟩
  · exact ⟨by simp [hfinished], fun _ => .inr ⟨i, w', hcurrent', hentry, by simp [hended]⟩⟩
  · rw [hrunning] at hsame
    exact ⟨fun _ => .inr ⟨i, w', hcurrent', hentry, by simp [hnot]⟩, by simp [hsame]⟩

/-- What a call does to the lifecycle state: a run that has found it idle marks it running, a
wait that has joined, or found nothing to join, marks it idle. -/
theorem lifecycleState_of_advance (h : Advances m requests c m' c') :
    (∃ n clearedAt, c = .runCleared n clearedAt ∧ m'.lifecycleState = .running) ∨
      (c = .waitJoined ∧ m'.lifecycleState = .idle) ∨
      m'.lifecycleState = m.lifecycleState := by
  cases h with
  | mark => exact .inl ⟨_, _, rfl, rfl⟩
  | idle => exact .inr (.inl ⟨rfl, rfl⟩)
  | _ => exact .inr (.inr rfl)

theorem Truthful.advance (h : m.Truthful (some c)) (hconsistent : m.Consistent requests (some c))
    (hadvances : Advances m requests c m' c') : m'.Truthful (some c') := by
  have hplace := hconsistent.place c rfl
  cases hadvances with
  | reject _ => exact h.relocate rfl (by simp) (by simp)
  | accept hidle _ => exact ⟨by simp [hidle], by simp [hidle]⟩
  | clear =>
      have hidle : m.lifecycleState = .idle := hplace.1
      exact ⟨by simp [hidle], by simp [hidle]⟩
  | mark => exact ⟨fun _ => .inl ⟨_, _, rfl⟩, by simp⟩
  | @create n clearedAt =>
      have hcreated : ({ m with
          workers := m.workers ++ [Worker.new n clearedAt m.completedCycles] } :
            Members).Unjoined (some (.runCreated n m.workers.length)) False :=
        ⟨m.workers.length, _, rfl, List.getElem?_concat_length, by simp [Worker.new]⟩
      refine ⟨fun _ => .inr hcreated, fun hfinished => ?_⟩
      rcases h.finished hfinished with heq | ⟨j, v, hj, -, -⟩
      · simp at heq
      · exact absurd (hplace.1.symm.trans hj) (by simp)
  | @assign n i hthread =>
      -- The worker is the same; it is `thread_` that holds it now.
      constructor
      · intro hrunning
        rcases h.running hrunning with ⟨_, _, heq⟩ | ⟨j, v, hj, hv, hended⟩
        · simp at heq
        · exact .inr ⟨j, v, hj, hv, hended⟩
      · intro hfinished
        rcases h.finished hfinished with heq | ⟨j, v, hj, hv, hended⟩
        · simp at heq
        · exact .inr ⟨j, v, hj, hv, hended⟩
  | replace hthread => exact absurd (hthread.symm.trans hplace.1) (by simp)
  | replaced _ => exact hplace.elim
  | nothingToJoin hthread =>
      constructor
      · intro hrunning
        rcases h.running hrunning with ⟨_, _, heq⟩ | ⟨j, v, hj, -, -⟩
        · simp at heq
        · exact absurd (hthread.symm.trans hj) (by simp)
      · exact fun _ => .inl rfl
  | @join i hthread hended =>
      constructor
      · intro hrunning
        rcases h.running hrunning with ⟨_, _, heq⟩ | ⟨j, v, hj, hv, hnot⟩
        · simp at heq
        · obtain rfl : i = j := Option.some.inj (hthread.symm.trans hj)
          exact absurd (by simpa [hasEnded, hv] using hended) hnot.mp
      · exact fun _ => .inl rfl
  | idle => exact ⟨by simp, by simp⟩

end Members

/-- The round of the three states. -/
def LifecycleState.next : LifecycleState → LifecycleState
  | .idle => .running
  | .running => .finished
  | .finished => .idle

namespace Lifecycle

section Attended

variable {τ : Type} [DecidableEq τ] {s s' : Lifecycle τ} {t : τ} {event : LifecycleEvent τ}

/-- The invariant of the loop with what its state says and who is inside. -/
structure Attended (s : Lifecycle τ) : Prop where
  orderly : s.Orderly
  truthful : s.members.Truthful s.critical
  inside : ∀ t, s.callers t = .inside ↔ ∃ c untouched, s.mutex = some ⟨t, c, untouched⟩

omit [DecidableEq τ] in
theorem attended_initial : (initial : Lifecycle τ).Attended :=
  ⟨orderly_initial, Members.truthful_initial, by simp [initial]⟩

theorem Attended.call {caller : Caller} (h : s.Attended) (hcall : s.call t caller = some s') :
    s'.Attended := by
  have hguard : s.callers t = .outside ∧ caller.entry.isSome := by
    by_contra hnot
    rw [Lifecycle.call, if_neg hnot] at hcall
    cases hcall
  have horderly : s'.Orderly := h.orderly.step (show Step s (.call t caller) s' from hcall)
  obtain rfl := call_cases hcall
  refine ⟨horderly, h.truthful, fun u => ?_⟩
  dsimp only
  rcases eq_or_ne u t with rfl | hne
  · have hcaller : caller ≠ .inside := by
      rintro rfl
      simp [Caller.entry] at hguard
    rw [Function.update_self, ← h.inside, hguard.1]
    simp [hcaller]
  · rw [Function.update_of_ne hne]
    exact h.inside u

theorem Attended.acquire (h : s.Attended) (hacquire : s.acquire t = some s') : s'.Attended := by
  have horderly : s'.Orderly := h.orderly.acquire hacquire
  obtain ⟨c, hmutex, hentry, rfl⟩ := acquire_cases hacquire
  have hcritical : s.critical = none := by simp [critical, hmutex]
  have htruthful := h.truthful
  rw [hcritical] at htruthful
  refine ⟨horderly, htruthful.relocate ?_ (by simp) (by simp), fun u => ?_⟩
  · rcases hentry with ⟨n, rfl⟩ | rfl <;> rfl
  · dsimp only
    rcases eq_or_ne u t with rfl | hne
    · rw [Function.update_self]
      exact iff_of_true rfl ⟨c, true, rfl⟩
    · rw [Function.update_of_ne hne, h.inside, hmutex]
      simp [hne.symm]

theorem Attended.proceed (h : s.Attended) (hproceed : s.proceed t = some s') : s'.Attended := by
  have horderly : s'.Orderly := h.orderly.proceed hproceed
  obtain ⟨c, untouched, m', c', hmutex, hadvances, rfl⟩ := proceed_cases hproceed
  have hcritical : s.critical = some c := by simp [critical, hmutex]
  have hconsistent := h.orderly.consistent
  have htruthful := h.truthful
  rw [hcritical] at hconsistent htruthful
  refine ⟨horderly, htruthful.advance hconsistent hadvances, fun u => ?_⟩
  rw [h.inside, hmutex]
  simp

theorem Attended.release (h : s.Attended) (hrelease : s.release t = some s') : s'.Attended := by
  have horderly : s'.Orderly := h.orderly.release hrelease
  obtain ⟨c, untouched, hmutex, hcases⟩ := release_cases hrelease
  have hcritical : s.critical = some c := by simp [critical, hmutex]
  have htruthful := h.truthful
  rw [hcritical] at htruthful
  have hinside : ∀ u, Function.update s.callers t .outside u = .inside ↔
      ∃ c untouched, (none : Option (Holder τ)) = some ⟨u, c, untouched⟩ := by
    intro u
    rcases eq_or_ne u t with rfl | hne
    · simp
    · rw [Function.update_of_ne hne, h.inside, hmutex]
      simp [hne.symm]
  rcases hcases with ⟨n, found, worker, rfl, rfl⟩ | ⟨rfl, rfl⟩
  · exact ⟨horderly, htruthful.relocate rfl (by simp) (by simp), hinside⟩
  · exact ⟨horderly, htruthful.relocate rfl (by simp) (by simp), hinside⟩

theorem Attended.step (h : s.Attended) (hstep : Step s event s') : s'.Attended := by
  cases event with
  | call t caller => exact h.call hstep
  | requestStop =>
      have horderly := h.orderly.step hstep
      obtain rfl := Option.some.inj hstep
      exact ⟨horderly, ⟨h.truthful.running, h.truthful.finished⟩, h.inside⟩
  | acquire t => exact h.acquire hstep
  | proceed t => exact h.proceed hstep
  | release t => exact h.release hstep
  | work i =>
      have horderly := h.orderly.step hstep
      obtain ⟨m', hm, rfl⟩ := Option.map_eq_some_iff.mp hstep
      exact ⟨horderly, h.truthful.work h.orderly.consistent hm, h.inside⟩

theorem Reached.attended (h : s.Reached) : s.Attended := by
  refine h.invariant Attended ?_ fun _ _ _ => Attended.step
  rintro start rfl
  exact attended_initial

omit [DecidableEq τ] in
/-- A worker to join, as a member of the list. -/
theorem Attended.unjoined_iff (h : s.Attended) (hfree : s.mutex = none) (ended : Prop) :
    s.members.Unjoined none ended ↔
      ∃ w ∈ s.members.workers, w.joined = false ∧ (w.stage = .ended ↔ ended) := by
  have hcritical : s.critical = none := by simp [critical, hfree]
  have hconsistent := h.orderly.consistent
  rw [hcritical] at hconsistent
  constructor
  · rintro ⟨i, w, hi, hw, hended⟩
    exact ⟨w, List.mem_of_getElem? hw, (hconsistent.worker i w hw).unjoined.mpr hi, hended⟩
  · rintro ⟨w, hmem, hunjoined, hended⟩
    obtain ⟨i, hw⟩ := List.getElem?_of_mem hmem
    exact ⟨i, w, (hconsistent.worker i w hw).unjoined.mp hunjoined, hw, hended⟩

/-- The lifecycle state is true and goes round, as long as threads can be created and `update`
does not throw.  In every interleaving: while no call is inside, idle means that every worker
has been joined, running that one has not returned, and finished that one has returned and
has not been joined; and a step that changes the state takes it to the next of the round,
from idle by a run that has found it idle, from running by its worker, and from finished by
a wait that has joined it. -/
theorem lifecycle_state_true (hs : s.Reached) :
    (s.mutex = none →
      (s.members.lifecycleState = .idle ↔ ∀ w ∈ s.members.workers, w.joined = true) ∧
      (s.members.lifecycleState = .running ↔
        ∃ w ∈ s.members.workers, w.joined = false ∧ w.stage ≠ .ended) ∧
      (s.members.lifecycleState = .finished ↔
        ∃ w ∈ s.members.workers, w.joined = false ∧ w.stage = .ended)) ∧
    ∀ event s', Step s event s' → s'.members.lifecycleState ≠ s.members.lifecycleState →
      s'.members.lifecycleState = s.members.lifecycleState.next ∧
      match s.members.lifecycleState with
      | .idle => ∃ t n clearedAt, event = .proceed t ∧ s.critical = some (.runCleared n clearedAt)
      | .running => ∃ i, event = .work i
      | .finished => ∃ t, event = .proceed t ∧ s.critical = some .waitJoined := by
  have hattended := hs.attended
  constructor
  · intro hfree
    have hcritical : s.critical = none := by simp [critical, hfree]
    have hconsistent := hattended.orderly.consistent
    have htruthful := hattended.truthful
    have hrunning := (hattended.unjoined_iff hfree False).mp
    have hfinished := (hattended.unjoined_iff hfree True).mp
    simp only [iff_false, iff_true] at hrunning hfinished
    rw [hcritical] at hconsistent htruthful
    have hto_running : s.members.lifecycleState = .running →
        ∃ w ∈ s.members.workers, w.joined = false ∧ w.stage ≠ .ended :=
      fun hstate => hrunning ((htruthful.running hstate).resolve_left (by simp))
    have hto_finished : s.members.lifecycleState = .finished →
        ∃ w ∈ s.members.workers, w.joined = false ∧ w.stage = .ended :=
      fun hstate => hfinished ((htruthful.finished hstate).resolve_left (by simp))
    have hto_idle : s.members.lifecycleState = .idle →
        ∀ w ∈ s.members.workers, w.joined = true := by
      intro hstate w hw
      obtain ⟨i, hi⟩ := List.getElem?_of_mem hw
      exact hconsistent.joined (hconsistent.idle hstate) hi
    -- The three right-hand sides exclude one another: at most one worker is unjoined.
    have hunique : ∀ w ∈ s.members.workers, ∀ v ∈ s.members.workers, w.joined = false →
        v.joined = false → w = v := by
      intro w hw v hv hwjoined hvjoined
      obtain ⟨i, hi⟩ := List.getElem?_of_mem hw
      obtain ⟨j, hj⟩ := List.getElem?_of_mem hv
      obtain rfl := hconsistent.unique hi hj hwjoined hvjoined
      exact Option.some.inj (hi.symm.trans hj)
    cases hstate : s.members.lifecycleState with
    | idle =>
        have hall := hto_idle hstate
        refine ⟨iff_of_true rfl hall, iff_of_false (by simp) ?_, iff_of_false (by simp) ?_⟩ <;>
          rintro ⟨w, hw, hunjoined, -⟩ <;> simp [hall w hw] at hunjoined
    | running =>
        obtain ⟨w, hw, hunjoined, hlive⟩ := hto_running hstate
        refine ⟨iff_of_false (by simp) ?_, iff_of_true rfl ⟨w, hw, hunjoined, hlive⟩,
          iff_of_false (by simp) ?_⟩
        · intro hall
          simp [hall w hw] at hunjoined
        · rintro ⟨v, hv, hvjoined, hended⟩
          exact hlive (hunique w hw v hv hunjoined hvjoined ▸ hended)
    | finished =>
        obtain ⟨w, hw, hunjoined, hended⟩ := hto_finished hstate
        refine ⟨iff_of_false (by simp) ?_, iff_of_false (by simp) ?_,
          iff_of_true rfl ⟨w, hw, hunjoined, hended⟩⟩
        · intro hall
          simp [hall w hw] at hunjoined
        · rintro ⟨v, hv, hvjoined, hlive⟩
          exact hlive (hunique w hw v hv hunjoined hvjoined ▸ hended)
  · intro event s' hstep hchanged
    cases event with
    | call t caller =>
        obtain rfl := call_cases hstep
        exact absurd rfl hchanged
    | requestStop =>
        obtain rfl := Option.some.inj hstep
        exact absurd rfl hchanged
    | acquire t =>
        obtain ⟨c, -, -, rfl⟩ := acquire_cases hstep
        exact absurd rfl hchanged
    | proceed t =>
        obtain ⟨c, untouched, m', c', hmutex, hadvances, rfl⟩ := proceed_cases hstep
        have hcritical : s.critical = some c := by simp [critical, hmutex]
        have hplace := hattended.orderly.consistent.place c hcritical
        rcases Members.lifecycleState_of_advance hadvances with
          ⟨n, clearedAt, rfl, hstate⟩ | ⟨rfl, hstate⟩ | hsame
        · have hidle : s.members.lifecycleState = .idle := hplace.1
          dsimp only
          rw [hstate, hidle]
          exact ⟨rfl, t, n, clearedAt, rfl, hcritical⟩
        · have hthread : s.members.current (some .waitJoined) = none := hplace
          have htruthful := hattended.truthful
          rw [hcritical] at htruthful
          dsimp only at hchanged ⊢
          rw [hstate] at hchanged ⊢
          cases hbefore : s.members.lifecycleState with
          | idle => exact absurd hbefore.symm hchanged
          | running =>
              rcases htruthful.running hbefore with ⟨_, _, heq⟩ | ⟨j, -, hj, -⟩
              · simp at heq
              · exact absurd (hthread.symm.trans hj) (by simp)
          | finished => exact ⟨rfl, t, rfl, hcritical⟩
        · exact absurd hsame hchanged
    | release t =>
        obtain ⟨c, untouched, -, ⟨n, found, worker, -, rfl⟩ | ⟨-, rfl⟩⟩ := release_cases hstep
        · exact absurd rfl hchanged
        · exact absurd rfl hchanged
    | work i =>
        obtain ⟨m', hm, rfl⟩ := Option.map_eq_some_iff.mp hstep
        obtain ⟨w, w', hw, hlive, -, -, hstate⟩ := Members.lifecycleState_of_work hm
        obtain ⟨hrunning, -⟩ :=
          hattended.truthful.running_of_live hattended.orderly.consistent hw hlive
        rcases hstate with ⟨-, hfinished⟩ | ⟨-, hsame⟩
        · dsimp only
          rw [hfinished, hrunning]
          exact ⟨rfl, i, rfl⟩
        · exact absurd hsame hchanged

end Attended

/-- In the first of the two cycles of a run. -/
theorem lifecycle_state_true_started :
    ∃ s : Lifecycle Unit, s.Reached ∧ s.members.lifecycleState = .running ∧
      ∃ w ∈ s.members.workers, w.joined = false ∧ w.stage ≠ .ended := by
  have hrun : ∃ s : Lifecycle Unit, (runEvents () 2 ++ workEvents 3).foldlM next initial = some s ∧
      s.mutex = none ∧ s.members.lifecycleState = .running := ⟨_, rfl, rfl, rfl⟩
  obtain ⟨s, hs, hfree, hrunning⟩ := hrun
  have hreached := reached_of_schedule _ hs
  exact ⟨s, hreached, hrunning, ((lifecycle_state_true hreached).1 hfree).2.1.mp hrunning⟩

end Lifecycle

/-! ## What is left to do -/

/-- The steps a worker still makes at most. -/
def Worker.remaining (w : Worker) : Nat :=
  match w.stage with
  | .starting => 3 * w.cycleCount.toNat + 2
  | .checkingToken i => 3 * (w.cycleCount.toNat - (i + 1)) + 4
  | .checkingFlag i => 3 * (w.cycleCount.toNat - (i + 1)) + 3
  | .updating i => 3 * (w.cycleCount.toNat - (i + 1)) + 2
  | .finishing => 1
  | .ended => 0

/-- The steps a call under the mutex still makes at most, with those of the worker it may
create. -/
def Critical.cost : Critical → Nat
  | .runLocked n => 3 * n.toNat + 9
  | .runAdmitted n => 3 * n.toNat + 8
  | .runCleared n _ => 3 * n.toNat + 7
  | .runMarked n _ => 3 * n.toNat + 6
  | .runCreated _ _ => 3
  | .runReplacing _ _ _ => 2
  | .runLeaving _ _ _ => 1
  | .waitLocked => 3
  | .waitJoined => 2
  | .waitLeaving => 1

/-- The steps a call makes at most, from when it is called. -/
def Caller.cost : Caller → Nat
  | .wantsRun n => 3 * n.toNat + 10
  | .wantsWait => 4
  | _ => 0

theorem Caller.cost_of_entry {caller : Caller} {c : Critical} (h : caller.entry = some c) :
    caller.cost = c.cost + 1 := by
  cases caller <;> simp only [Caller.entry, reduceCtorEq, Option.some.injEq] at h <;> subst h <;>
    rfl

theorem Worker.remaining_loopHead (w : Worker) (i : Nat) :
    (w.loopHead i).remaining ≤ 3 * (w.cycleCount.toNat - i) + 1 := by
  unfold loopHead remaining
  by_cases hmore : (i : Int) < w.cycleCount
  · simp only [if_pos hmore]
    omega
  · simp only [if_neg hmore]
    omega

/-- Every step of a worker is one less to make. -/
theorem Worker.remaining_next {w w' : Worker} {stopRequested : Bool} {requests : Nat}
    (h : w.next stopRequested requests = some w') : w'.remaining + 1 ≤ w.remaining := by
  unfold next at h
  cases hstage : w.stage with
  | starting =>
      rw [hstage] at h
      obtain rfl := Option.some.inj h
      have hhead := w.remaining_loopHead 0
      simp only [remaining, hstage] at hhead ⊢
      omega
  | checkingToken i =>
      rw [hstage] at h
      obtain rfl := Option.some.inj h
      simp only [remaining, hstage]
      cases w.stopToken <;> simp
  | checkingFlag i =>
      rw [hstage] at h
      obtain rfl := Option.some.inj h
      simp only [remaining, hstage]
      cases stopRequested <;> simp
  | updating i =>
      rw [hstage] at h
      obtain rfl := Option.some.inj h
      have hhead := ({ w with executed := w.executed + 1 } : Worker).remaining_loopHead (i + 1)
      simp only [remaining, hstage] at hhead ⊢
      omega
  | finishing =>
      rw [hstage] at h
      obtain rfl := Option.some.inj h
      simp [remaining, hstage]
  | ended => simp [hstage] at h

namespace Members

variable {m m' : Members} {requests i : Nat} {c c' : Critical}

/-- The steps all workers still make at most. -/
def remaining (m : Members) : Nat := (m.workers.map Worker.remaining).sum

theorem remaining_of_work (h : m.work requests i = some m') : m'.remaining + 1 ≤ m.remaining := by
  obtain ⟨w, w', hw, hnext, hworkers, -⟩ := work_cases h
  have hentry : (m.workers.map Worker.remaining)[i]? = some w.remaining := by
    rw [List.getElem?_map, hw]
    rfl
  have hsum := sum_set (y := w'.remaining) hentry
  rw [← List.map_set, ← hworkers] at hsum
  have hless := Worker.remaining_next hnext
  unfold remaining
  omega

theorem remaining_modify {f : Worker → Worker} (hf : ∀ w, (f w).remaining = w.remaining) :
    ((m.workers.modify i f).map Worker.remaining).sum = m.remaining := by
  unfold remaining
  congr 1
  refine List.ext_getElem? fun j => ?_
  rw [List.getElem?_map, List.getElem?_modify, List.getElem?_map, Option.map_eq_map,
    Option.map_map]
  congr 1
  funext w
  simp only [Function.comp]
  split
  · exact hf w
  · rfl

/-- Every step of a call is one less to make; creating a worker hands over its share. -/
theorem remaining_of_advance (h : Advances m requests c m' c') :
    c'.cost + m'.remaining + 1 ≤ c.cost + m.remaining := by
  cases h with
  | reject _ =>
      simp only [Critical.cost]
      omega
  | accept _ _ =>
      simp only [Critical.cost]
      omega
  | clear =>
      simp only [Critical.cost, remaining]
      omega
  | mark =>
      simp only [Critical.cost, remaining]
      omega
  | create =>
      simp only [Critical.cost, remaining, List.map_append, List.sum_append, List.map_cons,
        List.map_nil, List.sum_cons, List.sum_nil, Worker.remaining, Worker.new]
      omega
  | assign _ =>
      simp only [Critical.cost, remaining]
      omega
  | @replace _ _ old _ =>
      have hsame := remaining_modify (m := m) (i := old)
        (f := fun w => { w with stopToken := true }) fun _ => rfl
      simp only [Critical.cost, requestToken, remaining] at hsame ⊢
      omega
  | @replaced _ _ old _ =>
      have hsame := remaining_modify (m := m) (i := old)
        (f := fun w => { w with joined := true }) fun _ => rfl
      simp only [Critical.cost, Members.join, remaining] at hsame ⊢
      omega
  | nothingToJoin _ =>
      simp only [Critical.cost]
      omega
  | @join j _ _ =>
      have hsame := remaining_modify (m := m) (i := j)
        (f := fun w => { w with joined := true }) fun _ => rfl
      simp only [Critical.cost, Members.join, remaining] at hsame ⊢
      omega
  | idle =>
      simp only [Critical.cost, remaining]
      omega

/-- A worker that has not returned can go on. -/
theorem exists_work (requests : Nat) {w : Worker} (hw : m.workers[i]? = some w)
    (hlive : w.stage ≠ .ended) :
    ∃ m', m.work requests i = some m' := by
  obtain ⟨w', hnext⟩ : ∃ w', w.next m.stopRequested requests = some w' := by
    cases hstage : w.stage with
    | ended => exact absurd hstage hlive
    | _ =>
        simp only [Worker.next, hstage]
        exact ⟨_, rfl⟩
  unfold work
  rw [hw, Option.bind_eq_bind, Option.bind_some, hnext, Option.bind_some]
  cases w.stage <;> exact ⟨_, rfl⟩

end Members

/-- A step other than a call or a request to stop. -/
def LifecycleEvent.isInternal {τ : Type} : LifecycleEvent τ → Bool
  | .call _ _ => false
  | .requestStop => false
  | _ => true

/-- The steps an event makes room for. -/
def LifecycleEvent.brings {τ : Type} : LifecycleEvent τ → Nat
  | .call _ caller => caller.cost
  | _ => 0

/-- The step an event takes of them. -/
def LifecycleEvent.spends {τ : Type} (event : LifecycleEvent τ) : Nat :=
  if event.isInternal then 1 else 0

theorem LifecycleEvent.brings_of_isInternal {τ : Type} {event : LifecycleEvent τ}
    (h : event.isInternal = true) : event.brings = 0 ∧ 0 < event.spends := by
  rw [spends, if_pos h]
  cases event with
  | call t caller => cases h
  | _ => exact ⟨rfl, Nat.one_pos⟩

theorem sum_spends {τ : Type} (trace : List (LifecycleEvent τ)) :
    (trace.map LifecycleEvent.spends).sum = trace.countP LifecycleEvent.isInternal :=
  sum_map_ite LifecycleEvent.isInternal trace

namespace Lifecycle

section Credit

variable {τ : Type}

/-- No call is in progress, and no worker. -/
structure Quiet (s : Lifecycle τ) : Prop where
  mutex : s.mutex = none
  callers : ∀ t, s.callers t = .outside
  workers : ∀ w ∈ s.members.workers, w.stage = .ended

/-- The steps that are left: of the calls that wait for the mutex, of the one that holds it,
and of the workers. -/
def Credit (s : Lifecycle τ) (k : Nat) : Prop :=
  ∃ waiting : Finset τ, (∀ t, t ∈ waiting ↔ (s.callers t).entry.isSome = true) ∧
    k = ∑ t ∈ waiting, (s.callers t).cost + s.critical.elim 0 Critical.cost + s.members.remaining

variable [DecidableEq τ] {s s' : Lifecycle τ} {t : τ} {event : LifecycleEvent τ} {k : Nat}

omit [DecidableEq τ] in
theorem credit_initial : (initial : Lifecycle τ).Credit 0 :=
  ⟨∅, by simp [initial, Caller.entry], rfl⟩

/-- A thread that stops waiting for the mutex. -/
theorem credit_update {waiting : Finset τ} {callers : τ → Caller} {c : Caller}
    (hwaiting : ∀ u, u ∈ waiting ↔ (callers u).entry.isSome = true) (hentry : c.entry = none) :
    (∀ u, u ∈ waiting.erase t ↔ (Function.update callers t c u).entry.isSome = true) ∧
      ∑ u ∈ waiting.erase t, (Function.update callers t c u).cost =
        ∑ u ∈ waiting.erase t, (callers u).cost := by
  constructor
  · intro u
    rcases eq_or_ne u t with rfl | hne
    · simp [hentry]
    · rw [Finset.mem_erase, Function.update_of_ne hne, hwaiting]
      simp [hne]
  · refine Finset.sum_congr rfl fun u hu => ?_
    rw [Function.update_of_ne (Finset.ne_of_mem_erase hu)]

theorem Credit.call {caller : Caller} (h : s.Credit k) (hcall : s.call t caller = some s') :
    s'.Credit (k + caller.cost) := by
  have hguard : s.callers t = .outside ∧ caller.entry.isSome := by
    by_contra hnot
    rw [Lifecycle.call, if_neg hnot] at hcall
    cases hcall
  obtain ⟨waiting, hwaiting, rfl⟩ := h
  obtain rfl := call_cases hcall
  have hout : t ∉ waiting := by
    rw [hwaiting, hguard.1]
    simp [Caller.entry]
  refine ⟨insert t waiting, fun u => ?_, ?_⟩
  · rw [Finset.mem_insert, hwaiting]
    dsimp only
    rcases eq_or_ne u t with rfl | hne
    · simp [hguard.2]
    · rw [Function.update_of_ne hne]
      simp [hne]
  · have hothers : ∑ u ∈ waiting, (Function.update s.callers t caller u).cost =
        ∑ u ∈ waiting, (s.callers u).cost := by
      refine Finset.sum_congr rfl fun u hu => ?_
      rw [Function.update_of_ne (ne_of_mem_of_not_mem hu hout)]
    rw [Finset.sum_insert hout]
    simp only [Function.update_self, hothers, critical]
    omega

theorem Credit.acquire (h : s.Credit k) (hacquire : s.acquire t = some s') :
    ∃ k', s'.Credit k' ∧ k' + 1 ≤ k := by
  obtain ⟨waiting, hwaiting, rfl⟩ := h
  obtain ⟨c, hmutex, hentry, rfl⟩ := acquire_entry hacquire
  have hmem : t ∈ waiting := by
    rw [hwaiting, hentry]
    rfl
  obtain ⟨hwaiting', hsum⟩ := credit_update (t := t) (c := .inside) hwaiting rfl
  refine ⟨_, ⟨waiting.erase t, hwaiting', rfl⟩, ?_⟩
  have hcost := Caller.cost_of_entry hentry
  have hall := Finset.sum_erase_add waiting (fun u => (s.callers u).cost) hmem
  simp only [critical, hmutex, Option.map_none, Option.map_some, Option.elim_none,
    Option.elim_some] at hsum ⊢
  omega

theorem Credit.proceed (h : s.Credit k) (hproceed : s.proceed t = some s') :
    ∃ k', s'.Credit k' ∧ k' + 1 ≤ k := by
  obtain ⟨waiting, hwaiting, rfl⟩ := h
  obtain ⟨c, untouched, m', c', hmutex, hadvances, rfl⟩ := proceed_cases hproceed
  refine ⟨_, ⟨waiting, hwaiting, rfl⟩, ?_⟩
  have hless := Members.remaining_of_advance hadvances
  simp only [critical, hmutex, Option.map_some, Option.elim_some]
  omega

theorem Credit.release (h : s.Credit k) (hrelease : s.release t = some s') :
    ∃ k', s'.Credit k' ∧ k' + 1 ≤ k := by
  obtain ⟨waiting, hwaiting, rfl⟩ := h
  obtain ⟨c, untouched, hmutex, hcases⟩ := release_cases hrelease
  obtain ⟨hwaiting', hsum⟩ := credit_update (t := t) (c := .outside) hwaiting rfl
  have hle : ∑ u ∈ waiting.erase t, (s.callers u).cost ≤ ∑ u ∈ waiting, (s.callers u).cost :=
    Finset.sum_le_sum_of_subset (Finset.erase_subset t waiting)
  rcases hcases with ⟨n, found, worker, rfl, rfl⟩ | ⟨rfl, rfl⟩
  · refine ⟨_, ⟨waiting.erase t, hwaiting', rfl⟩, ?_⟩
    simp only [critical, hmutex, Option.map_none, Option.map_some, Option.elim_none,
      Option.elim_some, Critical.cost] at hsum ⊢
    omega
  · refine ⟨_, ⟨waiting.erase t, hwaiting', rfl⟩, ?_⟩
    simp only [critical, hmutex, Option.map_none, Option.map_some, Option.elim_none,
      Option.elim_some, Critical.cost] at hsum ⊢
    omega

/-- No step does more than there is left to do. -/
theorem amortizes :
    Amortizes (@Step τ _) Credit LifecycleEvent.brings LifecycleEvent.spends := by
  intro s event s' k h hstep
  cases event with
  | call t caller => exact ⟨_, h.call hstep, le_rfl⟩
  | requestStop =>
      obtain rfl := Option.some.inj hstep
      exact ⟨k, h, le_rfl⟩
  | acquire t => exact h.acquire hstep
  | proceed t => exact h.proceed hstep
  | release t => exact h.release hstep
  | work i =>
      obtain ⟨m', hm, rfl⟩ := Option.map_eq_some_iff.mp hstep
      obtain ⟨waiting, hwaiting, rfl⟩ := h
      refine ⟨_, ⟨waiting, hwaiting, rfl⟩, ?_⟩
      have hless := Members.remaining_of_work hm
      simp only [critical, LifecycleEvent.spends, LifecycleEvent.isInternal,
        LifecycleEvent.brings, if_true]
      omega

/-! ## Where nothing is left to do -/

/-- The call under the mutex can go on; only `wait` needs the workers to have ended. -/
theorem Attended.exists_holder_step (h : s.Attended) {c : Critical} {untouched : Bool}
    (hmutex : s.mutex = some ⟨t, c, untouched⟩)
    (hended : c = .waitLocked → ∀ w ∈ s.members.workers, w.stage = .ended) :
    ∃ event s', (event = .proceed t ∨ event = .release t) ∧ Step s event s' := by
  have hproceed : (∃ after, s.members.advance s.requests c = some after) →
      ∃ event s', (event = .proceed t ∨ event = .release t) ∧ Step s event s' := by
    rintro ⟨⟨m', c'⟩, hadvance⟩
    obtain ⟨s', hstep, -⟩ := Inside.proceed ⟨rfl, rfl, untouched, hmutex⟩ hadvance
    exact ⟨.proceed t, s', .inl rfl, hstep⟩
  have hrelease : (c = .waitLeaving ∨ ∃ n found worker, c = .runLeaving n found worker) →
      ∃ event s', (event = .proceed t ∨ event = .release t) ∧ Step s event s' := by
    intro hleaving
    obtain ⟨s', hstep, -⟩ := Inside.release ⟨rfl, rfl, untouched, hmutex⟩ hleaving
    exact ⟨.release t, s', .inr rfl, hstep⟩
  have hcritical : s.critical = some c := by simp [critical, hmutex]
  have hconsistent := h.orderly.consistent
  have hplace := hconsistent.place c hcritical
  rw [hcritical] at hconsistent
  cases c with
  | runLocked n =>
      refine hproceed ?_
      simp only [Members.advance]
      split_ifs <;> exact ⟨_, rfl⟩
  | runAdmitted n => exact hproceed ⟨_, rfl⟩
  | runCleared n clearedAt => exact hproceed ⟨_, rfl⟩
  | runMarked n clearedAt => exact hproceed ⟨_, rfl⟩
  | runCreated n i => exact hproceed ⟨_, Members.advance_of_thread_none hplace.1⟩
  | runReplacing n i old => exact hplace.elim
  | runLeaving n found worker => exact hrelease (.inr ⟨n, found, worker, rfl⟩)
  | waitLocked =>
      cases hthread : s.members.thread with
      | none => exact hproceed ⟨(s.members, .waitJoined), by simp only [Members.advance, hthread]⟩
      | some i =>
          -- `join` waits for a worker that has ended.
          have hlt : i < s.members.workers.length := by
            have hlatest := hconsistent.latest i hthread
            omega
          have hjoinable : s.members.hasEnded i = true := by
            rw [Members.hasEnded, List.getElem?_eq_getElem hlt]
            simp [hended rfl _ (List.getElem_mem hlt)]
          exact hproceed ⟨(s.members.join i, .waitJoined), by
            simp only [Members.advance, hthread, hjoinable, if_true]⟩
  | waitJoined => exact hproceed ⟨_, rfl⟩
  | waitLeaving => exact hrelease (.inl rfl)

/-- Something can go on, unless every call has returned and every worker has ended. -/
theorem Attended.quiet (h : s.Attended)
    (hstuck : ∀ event s', event.isInternal = true → ¬ Step s event s') : s.Quiet := by
  have hended : ∀ w ∈ s.members.workers, w.stage = .ended := by
    intro w hw
    obtain ⟨i, hi⟩ := List.getElem?_of_mem hw
    by_contra hlive
    obtain ⟨m', hm⟩ := Members.exists_work s.requests hi hlive
    exact hstuck (.work i) _ rfl (Option.map_eq_some_iff.mpr ⟨m', hm, rfl⟩)
  have hmutex : s.mutex = none := by
    cases hmutex : s.mutex with
    | none => rfl
    | some holder =>
        obtain ⟨t, c, untouched⟩ := holder
        obtain ⟨event, s', hown, hstep⟩ := h.exists_holder_step hmutex fun _ => hended
        have hinternal : event.isInternal = true := by
          rcases hown with rfl | rfl
          · rfl
          · rfl
        exact absurd hstep (hstuck event s' hinternal)
  refine ⟨hmutex, fun t => ?_, hended⟩
  have hacquire : ∀ c, (s.callers t).entry ≠ some c := by
    intro c hentry
    have hacquire : s.acquire t = some { s with
        mutex := some ⟨t, c, true⟩, callers := Function.update s.callers t .inside } := by
      simp only [Lifecycle.acquire, hmutex, hentry]
    exact hstuck (.acquire t) _ rfl hacquire
  cases hcaller : s.callers t with
  | outside => rfl
  | inside =>
      obtain ⟨c, untouched, hheld⟩ := (h.inside t).mp hcaller
      cases (hmutex.symm.trans hheld)
  | wantsRun n =>
      rw [hcaller] at hacquire
      exact absurd rfl (hacquire _)
  | wantsWait =>
      rw [hcaller] at hacquire
      exact absurd rfl (hacquire _)

/-- Where every call has returned and every worker has ended, nothing goes on by itself. -/
theorem Quiet.stuck (h : s.Quiet) (event : LifecycleEvent τ) (hinternal : event.isInternal = true) :
    ¬ Step s event s' := by
  intro hstep
  cases event with
  | call t caller => cases hinternal
  | requestStop => cases hinternal
  | acquire t =>
      obtain ⟨c, -, hentry, -⟩ := acquire_entry hstep
      rw [h.callers t] at hentry
      cases hentry
  | proceed t =>
      obtain ⟨c, untouched, m', c', hmutex, -⟩ := proceed_cases hstep
      cases (h.mutex.symm.trans hmutex)
  | release t =>
      obtain ⟨c, untouched, hmutex, -⟩ := release_cases hstep
      cases (h.mutex.symm.trans hmutex)
  | work i =>
      obtain ⟨m', hm, -⟩ := Option.map_eq_some_iff.mp hstep
      obtain ⟨w, w', hw, hlive, -⟩ := Members.lifecycleState_of_work hm
      exact hlive (h.workers w (List.mem_of_getElem? hw))

/-- Every call returns, as long as threads can be created and `update` does not throw.  In
every execution the calls and the workers make no more steps than the calls have brought:
`3 n + 10` for a run of `n` cycles, four for a wait.  From where it leads they can go on until
none is possible, and they can go on everywhere except where every call has returned and every
worker has ended. -/
theorem every_call_returns {trace : List (LifecycleEvent τ)}
    (hexec : Execution Step initial trace s) :
    trace.countP LifecycleEvent.isInternal ≤ (trace.map LifecycleEvent.brings).sum ∧
    (∃ rest s', Execution Step s rest s' ∧ (∀ event ∈ rest, event.isInternal = true) ∧
      trace.countP LifecycleEvent.isInternal + rest.length ≤
        (trace.map LifecycleEvent.brings).sum ∧ s'.Quiet) ∧
    ((∀ event s', event.isInternal = true → ¬ Step s event s') ↔ s.Quiet) := by
  have hreached : s.Reached := ⟨initial, trace, rfl, hexec⟩
  obtain ⟨k, hcredit, hspent⟩ := amortizes.execution hexec credit_initial
  rw [sum_spends, Nat.zero_add] at hspent
  obtain ⟨rest, s', hrest, hall, hlength, hstuck⟩ :=
    amortizes.exists_rest (fun _ => LifecycleEvent.brings_of_isInternal) hcredit
  refine ⟨by omega, ⟨rest, s', hrest, hall, by omega, ?_⟩, ?_⟩
  · have hreached' : s'.Reached := hreached.execution hrest
    exact hreached'.attended.quiet hstuck
  · exact ⟨hreached.attended.quiet, fun h event s' => h.stuck event⟩

end Credit

/-- The first of the two cycles of a run, and a call of wait. -/
def waitDuringRun : List (LifecycleEvent Bool) :=
  runEvents false 2 ++ workEvents 3 ++ [.call true .wantsWait]

theorem every_call_returns_waitDuringRun :
    ∃ s : Lifecycle Bool, s.callers true = .wantsWait ∧
      ∃ rest s', Execution Step s rest s' ∧ rest.length ≤ 10 ∧ s'.Quiet := by
  have hrun : ∃ s : Lifecycle Bool, waitDuringRun.foldlM next initial = some s ∧
      s.callers true = .wantsWait := ⟨_, rfl, rfl⟩
  obtain ⟨s, hs, hwaiting⟩ := hrun
  have hexec : Execution Step initial waitDuringRun s :=
    Execution.of_schedule (fun _ _ _ => id) _ hs
  obtain ⟨-, ⟨rest, s', hrest, -, hlength, hquiet⟩, -⟩ := every_call_returns hexec
  refine ⟨s, hwaiting, rest, s', hrest, ?_, hquiet⟩
  have hcounts : waitDuringRun.countP LifecycleEvent.isInternal = 10 := by decide
  have hbrought : (waitDuringRun.map LifecycleEvent.brings).sum = 20 := by decide
  omega

end Lifecycle

end RobotController.Control
