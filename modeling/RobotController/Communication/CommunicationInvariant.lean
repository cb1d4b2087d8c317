/-
  Communication/CommunicationInvariant.lean --- the invariant of starting and stopping the
  communication thread.

  While a `start` that is accepted and a `stop` stay apart, the members go through two phases.
  No `start` is on its way, and `thread_` holds the only worker that may be alive; or one is,
  and only the worker it creates may be alive.
-/
import RobotController.Communication.CommunicationLifecycle

set_option autoImplicit false

namespace RobotController.Communication

open RobotController.Foundation

namespace CommunicationMembers

variable {m m' : CommunicationMembers} {i j : Nat} {stage stage' : CallStage} {decoded : Bool}

/-! ## Workers -/

theorem hasEnded_iff (hi : i < m.workers.length) : m.hasEnded i = true ↔ ¬ m.Live i := by
  simp [hasEnded, Live, List.getElem?_eq_getElem hi]

theorem not_live_of_hasEnded (h : m.hasEnded i = true) : ¬ m.Live i := by
  rintro ⟨stage, hstage, hne⟩
  simp only [hasEnded, hstage, beq_iff_eq, Option.some.injEq] at h
  exact hne h

theorem live_congr (h : m'.workers[i]? = m.workers[i]?) : m'.Live i ↔ m.Live i := by
  rw [Live, Live, h]

/-- The only worker that a creation adds is the new one. -/
theorem live_create (h : m'.workers = m.workers ++ [.checking]) (hlive : m'.Live i) :
    m.Live i ∨ i = m.workers.length := by
  obtain ⟨stage, hstage, hne⟩ := hlive
  rw [h] at hstage
  rcases Nat.lt_trichotomy i m.workers.length with hlt | heq | hgt
  · rw [List.getElem?_append_left hlt] at hstage
    exact .inl ⟨stage, hstage, hne⟩
  · exact .inr heq
  · have hlt := (List.getElem?_eq_some_iff.mp hstage).choose
    simp at hlt
    omega

theorem remaining_congr (h : m'.workers[i]? = m.workers[i]?) : m'.remaining i = m.remaining i := by
  rw [remaining, remaining, h]

/-- What an operation of a worker does. -/
theorem work_cases (h : m.work i decoded = some m') :
    ∃ stage stage', m.workers[i]? = some stage ∧ stage.next m.running decoded = some stage' ∧
      m' = { m with workers := m.workers.set i stage' } := by
  obtain ⟨stage, hstage, h⟩ := Option.bind_eq_some_iff.mp h
  obtain ⟨stage', hnext, h⟩ := Option.bind_eq_some_iff.mp h
  exact ⟨stage, stage', hstage, hnext, (Option.some.inj h).symm⟩

/-- Only workers that are alive take steps, and no step brings one back. -/
theorem live_work (h : m.work i decoded = some m') (hlive : m'.Live j) : m.Live j := by
  obtain ⟨before, after, hbefore, hnext, rfl⟩ := work_cases h
  obtain ⟨last, hlast, hne⟩ := hlive
  rcases eq_or_ne i j with rfl | hij
  · exact ⟨before, hbefore, RunStage.ne_ended_of_next hnext⟩
  · rw [List.getElem?_set_ne hij] at hlast
    exact ⟨last, hlast, hne⟩

/-- An operation of a worker is one fewer to come, when it has been told to end. -/
theorem remaining_work (h : m.work j decoded = some m') (hrunning : m.Live i → m.running = false) :
    (if i = j then 1 else 0) + m'.remaining i ≤ m.remaining i := by
  obtain ⟨before, after, hbefore, hnext, rfl⟩ := work_cases h
  split_ifs with heq
  · subst heq
    rw [hrunning ⟨before, hbefore, RunStage.ne_ended_of_next hnext⟩] at hnext
    have hafter : (m.workers.set i after)[i]? = some after :=
      List.getElem?_set_self (List.getElem?_eq_some_iff.mp hbefore).choose
    rw [remaining, remaining, hbefore, hafter]
    exact RunStage.remaining_next hnext
  · rw [Nat.zero_add]
    exact Nat.le_of_eq (remaining_congr (List.getElem?_set_ne (Ne.symm heq)))

/-! ## Accesses of a call -/

/-- The accesses of `start` and of `stop`. -/
inductive Advances (m : CommunicationMembers) :
    CallStage → CommunicationMembers → CallStage → Prop where
  | reject : m.running = true → Advances m .exchanging m .outside
  | accept : m.running = false → Advances m .exchanging { m with running := true } .creating
  | create : Advances m .creating { m with workers := m.workers ++ [.checking] }
      (.assigning m.workers.length)
  | assign {worker : Nat} : m.thread = none →
      Advances m (.assigning worker) { m with thread := some worker } .outside
  | replace {worker old : Nat} : m.thread = some old →
      Advances m (.assigning worker) m (.replacing worker old)
  | replaced {worker old : Nat} : m.hasEnded old = true →
      Advances m (.replacing worker old) { m with thread := some worker } .outside
  | store : Advances m .storing { m with running := false } .testing
  | notJoinable : m.thread = none → Advances m .testing m .outside
  | joinable {worker : Nat} : m.thread = some worker → Advances m .testing m .entering
  | joinThrows : m.thread = none → Advances m .entering m .outside
  | join {worker : Nat} : m.thread = some worker → Advances m .entering m (.joining worker)
  | joined {worker : Nat} : m.hasEnded worker = true →
      Advances m (.joining worker) { m with thread := none } .outside

theorem advance_cases (h : m.advance stage = some (m', stage')) : Advances m stage m' stage' := by
  obtain ⟨running, thread, workers⟩ := m
  cases stage with
  | outside => cases h
  | exchanging =>
      obtain ⟨rfl, rfl⟩ := Prod.mk.inj (Option.some.inj h)
      cases running with
      | true => exact .reject rfl
      | false => exact .accept rfl
  | creating =>
      obtain ⟨rfl, rfl⟩ := Prod.mk.inj (Option.some.inj h)
      exact .create
  | assigning worker =>
      cases thread with
      | none =>
          obtain ⟨rfl, rfl⟩ := Prod.mk.inj (Option.some.inj h)
          exact .assign rfl
      | some old =>
          obtain ⟨rfl, rfl⟩ := Prod.mk.inj (Option.some.inj h)
          exact .replace rfl
  | replacing worker old =>
      obtain ⟨hended, h⟩ := Option.ite_none_right_eq_some.mp h
      obtain ⟨rfl, rfl⟩ := Prod.mk.inj (Option.some.inj h)
      exact .replaced hended
  | storing =>
      obtain ⟨rfl, rfl⟩ := Prod.mk.inj (Option.some.inj h)
      exact .store
  | testing =>
      obtain ⟨rfl, rfl⟩ := Prod.mk.inj (Option.some.inj h)
      cases thread with
      | none => exact .notJoinable rfl
      | some worker => exact .joinable rfl
  | entering =>
      cases thread with
      | none =>
          obtain ⟨rfl, rfl⟩ := Prod.mk.inj (Option.some.inj h)
          exact .joinThrows rfl
      | some worker =>
          obtain ⟨rfl, rfl⟩ := Prod.mk.inj (Option.some.inj h)
          exact .join rfl
  | joining worker =>
      obtain ⟨hended, h⟩ := Option.ite_none_right_eq_some.mp h
      obtain ⟨rfl, rfl⟩ := Prod.mk.inj (Option.some.inj h)
      exact .joined hended

/-- The only accesses that wait are those of `join`. -/
theorem awaited_of_advance_eq_none (h : m.advance stage = none) (hinside : stage ≠ .outside) :
    ∃ i, stage.awaited = some i ∧ m.hasEnded i = false := by
  cases stage with
  | outside => exact absurd rfl hinside
  | assigning worker | entering =>
      simp only [advance] at h
      split at h <;> cases h
  | replacing worker old =>
      exact ⟨old, rfl, Bool.eq_false_iff.mpr fun hended => by simp [advance, hended] at h⟩
  | joining worker =>
      exact ⟨worker, rfl, Bool.eq_false_iff.mpr fun hended => by simp [advance, hended] at h⟩
  | _ => cases h

/-- A call does nothing to the workers there are. -/
theorem Advances.workers (h : m.Advances stage m' stage') (hi : i < m.workers.length) :
    m'.workers[i]? = m.workers[i]? := by
  cases h with
  | create => exact List.getElem?_append_left hi
  | _ => rfl

/-- Only an exchange raises `running_`. -/
theorem Advances.running (h : m.Advances stage m' stage') (hstage : stage ≠ .exchanging)
    (hrunning : m.running = false) : m'.running = false := by
  cases h with
  | accept _ => exact absurd rfl hstage
  | store => rfl
  | _ => exact hrunning

end CommunicationMembers

theorem CallStage.isStarting_of_isStopping {stage : CallStage} (h : stage.isStopping = true) :
    stage.isStarting = false := by
  cases stage <;> first | rfl | cases h

theorem CallStage.isStopping_of_isStarting {stage : CallStage} (h : stage.isStarting = true) :
    stage.isStopping = false := by
  cases stage <;> first | rfl | cases h

/-! ## The invariant -/

/-- What a `start` knows that has been accepted: before it creates its worker none is alive,
and afterwards no other is. -/
def CommunicationMembers.Launch (m : CommunicationMembers) : CallStage → Prop
  | .creating => ∀ i, ¬ m.Live i
  | .assigning worker =>
      worker < m.workers.length ∧ m.thread ≠ some worker ∧ ∀ i, m.Live i → i = worker
  | .replacing worker old =>
      worker < m.workers.length ∧ old < m.workers.length ∧ old ≠ worker ∧
        ∀ i, m.Live i → i = worker
  | _ => False

/-- What a `stop` knows while it waits: `thread_` holds the worker, unless another `stop` has
joined it. -/
def CommunicationMembers.Join (m : CommunicationMembers) : CallStage → Prop
  | .joining worker =>
      worker < m.workers.length ∧ (m.thread = some worker ∨ m.thread = none)
  | _ => True

theorem CommunicationMembers.Launch.isStarting {m : CommunicationMembers} {stage : CallStage}
    (h : m.Launch stage) : stage.isStarting = true := by
  cases stage <;> first | rfl | exact h.elim

/-- The workers may go on. -/
theorem CommunicationMembers.Launch.mono {m m' : CommunicationMembers} {stage : CallStage}
    (h : m.Launch stage) (hworkers : m'.workers.length = m.workers.length)
    (hthread : m'.thread = m.thread) (hlive : ∀ i, m'.Live i → m.Live i) : m'.Launch stage := by
  cases stage with
  | creating => exact fun i hi => h i (hlive i hi)
  | assigning worker =>
      obtain ⟨hlt, hother, honly⟩ := h
      exact ⟨hworkers ▸ hlt, hthread ▸ hother, fun i hi => honly i (hlive i hi)⟩
  | replacing worker old =>
      obtain ⟨hlt, hold, hother, honly⟩ := h
      exact ⟨hworkers ▸ hlt, hworkers ▸ hold, hother, fun i hi => honly i (hlive i hi)⟩
  | _ => exact h.elim

theorem CommunicationMembers.Launch.unique {m : CommunicationMembers} {stage : CallStage}
    {i j : Nat} (h : m.Launch stage) (hi : m.Live i) (hj : m.Live j) : i = j := by
  cases stage with
  | creating => exact absurd hi (h i)
  | assigning worker =>
      obtain ⟨-, -, honly⟩ := h
      exact (honly i hi).trans (honly j hj).symm
  | replacing worker old =>
      obtain ⟨-, -, -, honly⟩ := h
      exact (honly i hi).trans (honly j hj).symm
  | _ => exact h.elim

theorem CommunicationMembers.join_of_not_isStopping {m : CommunicationMembers}
    {stage : CallStage} (h : stage.isStopping = false) : m.Join stage := by
  cases stage <;> trivial

/-- The workers may go on, and `thread_` may be emptied. -/
theorem CommunicationMembers.Join.mono {m m' : CommunicationMembers} {stage : CallStage}
    (h : m.Join stage) (hworkers : m'.workers.length = m.workers.length)
    (hthread : m'.thread = m.thread ∨ m'.thread = none) : m'.Join stage := by
  cases stage with
  | joining worker =>
      obtain ⟨hlt, hholds⟩ := h
      refine ⟨hworkers ▸ hlt, ?_⟩
      rcases hthread with hsame | hnone
      · rwa [hsame]
      · exact .inr hnone
  | _ => trivial

namespace CommunicationLifecycle

variable {τ : Type} {s s' : CommunicationLifecycle τ} {t : τ} {stage : CallStage}
  {m' : CommunicationMembers}

/-- No `start` is on its way.  The worker that is alive is the one `thread_` holds, and every
`stop` on its way has told it to end. -/
structure Settled (s : CommunicationLifecycle τ) : Prop where
  starting : ∀ t, (s.callers t).isStarting = false
  live : ∀ i, s.members.Live i → s.members.thread = some i
  stopping : ∀ t, (s.callers t).isStopping = true → s.members.running = false
  stopped : s.members.running = false → (∀ t, (s.callers t).isStopping = false) →
    ∀ i, ¬ s.members.Live i
  joining : ∀ t, s.members.Join (s.callers t)

/-- Thread `t` is within a `start` that has been accepted, and nobody else is, nor within a
`stop`. -/
structure Launching (t : τ) (s : CommunicationLifecycle τ) : Prop where
  running : s.members.running = true
  stopping : ∀ u, (s.callers u).isStopping = false
  unique : ∀ u, (s.callers u).isStarting = true → u = t
  place : s.members.Launch (s.callers t)

/-- The invariant of the calls that keep apart. -/
structure Consistent (s : CommunicationLifecycle τ) : Prop where
  thread : ∀ i, s.members.thread = some i → i < s.members.workers.length
  phase : s.Settled ∨ ∃ t, s.Launching t

/-- What holds at the place of the one `start` holds at that of any. -/
theorem Launching.launch {u : τ} (h : s.Launching t) (hu : (s.callers u).isStarting = true) :
    s.members.Launch (s.callers u) := by
  obtain rfl := h.unique u hu
  exact h.place

theorem consistent_initial : (initial : CommunicationLifecycle τ).Consistent where
  thread := by rintro i ⟨⟩
  phase := .inl
    { starting := fun _ => rfl
      live := by rintro i ⟨stage, ⟨⟩, -⟩
      stopping := by rintro t ⟨⟩
      stopped := by rintro - - i ⟨stage, ⟨⟩, -⟩
      joining := fun _ => trivial }

/-- The worker that an accepted `start` is about to assign has been created. -/
theorem Consistent.worker_lt (h : s.Consistent) {worker : Nat}
    (hplace : s.callers t = .assigning worker ∨ ∃ old, s.callers t = .replacing worker old) :
    worker < s.members.workers.length := by
  rcases h.phase with hsettled | ⟨u, hlaunching⟩
  · have hstarting := hsettled.starting t
    rcases hplace with hstage | ⟨old, hstage⟩ <;> rw [hstage] at hstarting <;> cases hstarting
  · have hlaunch := hlaunching.launch (u := t)
    rcases hplace with hstage | ⟨old, hstage⟩ <;> rw [hstage] at hlaunch <;>
      exact (hlaunch rfl).1

/-- At most one worker is alive. -/
theorem Consistent.unique {i j : Nat} (h : s.Consistent) (hi : s.members.Live i)
    (hj : s.members.Live j) : i = j := by
  rcases h.phase with hsettled | ⟨t, hlaunching⟩
  · exact Option.some.inj ((hsettled.live i hi).symm.trans (hsettled.live j hj))
  · exact hlaunching.place.unique hi hj

/-- A `stop` that returns leaves no worker. -/
theorem Settled.returned (h : s.Settled)
    (hadvances : s.members.Advances (s.callers t) m' .outside)
    (hstopping : (s.callers t).isStopping = true) : (∀ i, ¬ m'.Live i) ∧ m'.thread = none := by
  generalize hstage : s.callers t = stage at hadvances hstopping
  cases hadvances with
  | notJoinable hthread | joinThrows hthread =>
      refine ⟨fun i hlive => ?_, hthread⟩
      rw [h.live i hlive] at hthread
      cases hthread
  | @joined worker hended =>
      refine ⟨fun i hlive => ?_, rfl⟩
      -- the worker that is alive would be the one that has been joined
      have hlive : s.members.Live i := hlive
      have hthread := h.live i hlive
      have hjoining := h.joining t
      rw [hstage] at hjoining
      rcases hjoining.2 with hsome | hnone
      · obtain rfl := Option.some.inj (hthread.symm.trans hsome)
        exact CommunicationMembers.not_live_of_hasEnded hended hlive
      · rw [hthread] at hnone
        cases hnone
  | _ => cases hstopping

/-- A worker goes on without disturbing any call. -/
theorem Settled.work {i : Nat} {decoded : Bool} (h : s.Settled)
    (hwork : s.members.work i decoded = some m') :
    ({ s with members := m' } : CommunicationLifecycle τ).Settled := by
  have hlive : ∀ j, m'.Live j → s.members.Live j := fun _ => CommunicationMembers.live_work hwork
  obtain ⟨before, after, -, -, rfl⟩ := CommunicationMembers.work_cases hwork
  exact
    { starting := h.starting
      live := fun j hj => h.live j (hlive j hj)
      stopping := h.stopping
      stopped := fun hrunning hnone j hj => h.stopped hrunning hnone j (hlive j hj)
      joining := fun u => (h.joining u).mono List.length_set (.inl rfl) }

theorem Launching.work {i : Nat} {decoded : Bool} (h : s.Launching t)
    (hwork : s.members.work i decoded = some m') :
    ({ s with members := m' } : CommunicationLifecycle τ).Launching t := by
  have hlive : ∀ j, m'.Live j → s.members.Live j := fun _ => CommunicationMembers.live_work hwork
  obtain ⟨before, after, -, -, rfl⟩ := CommunicationMembers.work_cases hwork
  exact ⟨h.running, h.stopping, h.unique, h.place.mono List.length_set rfl hlive⟩

variable [DecidableEq τ]

/-- What holds of every caller still does, when it holds of the place to which one moves. -/
theorem forall_update (P : CallStage → Prop) (hstage : P stage) (h : ∀ u, P (s.callers u))
    (u : τ) : P (Function.update s.callers t stage u) :=
  (Function.forall_update_iff s.callers fun _ c => P c).mpr ⟨hstage, fun u _ => h u⟩ u

/-- A caller that is not within a `stop` may go where it is within neither. -/
theorem Settled.relocate (h : s.Settled) (hfrom : (s.callers t).isStopping = false)
    (hstarting : stage.isStarting = false) (hstopping : stage.isStopping = false) :
    ({ s with callers := Function.update s.callers t stage } :
      CommunicationLifecycle τ).Settled where
  starting := forall_update (fun c => c.isStarting = false) hstarting h.starting
  live := h.live
  stopping := forall_update (fun c => c.isStopping = true → s.members.running = false)
    (fun hstop => absurd hstop (by simp [hstopping])) h.stopping
  stopped hrunning hnone := by
    refine h.stopped hrunning fun u => ?_
    rcases eq_or_ne u t with rfl | hne
    · exact hfrom
    · rw [← Function.update_of_ne hne stage s.callers]
      exact hnone u
  joining := forall_update s.members.Join (CommunicationMembers.join_of_not_isStopping hstopping)
    h.joining

/-- A `stop` goes on: it has told the worker to end. -/
theorem Settled.goOn (h : s.Settled) (hworkers : m'.workers = s.members.workers)
    (hthread : m'.thread = s.members.thread) (hrunning : m'.running = false)
    (hstopping : stage.isStopping = true) (hjoining : s.members.Join stage) :
    (⟨m', Function.update s.callers t stage⟩ : CommunicationLifecycle τ).Settled where
  starting := forall_update (fun c => c.isStarting = false)
    (CallStage.isStarting_of_isStopping hstopping) h.starting
  live i hlive := by
    rw [hthread]
    exact h.live i ((CommunicationMembers.live_congr (by rw [hworkers])).mp hlive)
  stopping _ _ := hrunning
  stopped _ hnone := by
    have hself := hnone t
    simp [hstopping] at hself
  joining u :=
    (forall_update _ hjoining h.joining u).mono (congrArg _ hworkers) (.inl hthread)

/-- A `stop` returns. -/
theorem Settled.leave (h : s.Settled) (hworkers : m'.workers = s.members.workers)
    (hrunning : m'.running = s.members.running) (hthread : m'.thread = none)
    (hnone : ∀ i, ¬ m'.Live i) :
    (⟨m', Function.update s.callers t .outside⟩ : CommunicationLifecycle τ).Settled where
  starting := forall_update (fun c => c.isStarting = false) rfl h.starting
  live i hlive := absurd hlive (hnone i)
  stopping := by
    rw [hrunning]
    exact forall_update (fun c => c.isStopping = true → _) (by rintro ⟨⟩) h.stopping
  stopped _ _ := hnone
  joining u := by
    have hjoining : s.members.Join .outside := trivial
    exact (forall_update _ hjoining h.joining u).mono (congrArg _ hworkers) (.inr hthread)

/-! ## Calls -/

theorem call_cases {entry : CallStage} (h : s.call t entry = some s') :
    s.callers t = .outside ∧ s' = { s with callers := Function.update s.callers t entry } := by
  obtain ⟨houtside, h⟩ := Option.ite_none_right_eq_some.mp h
  exact ⟨houtside, (Option.some.inj h).symm⟩

theorem proceed_cases (h : s.proceed t = some s') :
    ∃ m' stage, s.members.Advances (s.callers t) m' stage ∧
      s' = ⟨m', Function.update s.callers t stage⟩ := by
  obtain ⟨⟨m', stage⟩, hadvance, rfl⟩ := Option.map_eq_some_iff.mp h
  exact ⟨m', stage, CommunicationMembers.advance_cases hadvance, rfl⟩

/-- The worker that `thread_` holds has been created. -/
theorem thread_lt_of_advances {m : CommunicationMembers} {stage' : CallStage}
    (h : ∀ i, m.thread = some i → i < m.workers.length)
    (hworker : ∀ worker, (stage = .assigning worker ∨ ∃ old, stage = .replacing worker old) →
      worker < m.workers.length)
    (hadvances : m.Advances stage m' stage') :
    ∀ i, m'.thread = some i → i < m'.workers.length := by
  cases hadvances with
  | create =>
      intro i hi
      rw [List.length_append]
      exact Nat.lt_add_right _ (h i hi)
  | assign _ =>
      rintro i ⟨⟩
      exact hworker _ (.inl rfl)
  | replaced _ =>
      rintro i ⟨⟩
      exact hworker _ (.inr ⟨_, rfl⟩)
  | joined _ =>
      rintro i ⟨⟩
  | _ => exact h

/-- From a settled state, a `stop` goes its way, and a `start` is turned down or accepted. -/
theorem Settled.proceed {m' : CommunicationMembers} {stage' : CallStage} (h : s.Settled)
    (hbound : ∀ i, s.members.thread = some i → i < s.members.workers.length)
    (hadvances : s.members.Advances (s.callers t) m' stage')
    (hseparate : s.callers t = .exchanging → s.members.running = false →
      ∀ u, (s.callers u).isStopping = false) :
    (⟨m', Function.update s.callers t stage'⟩ : CommunicationLifecycle τ).Settled ∨
      (⟨m', Function.update s.callers t stage'⟩ : CommunicationLifecycle τ).Launching t := by
  have hstarting := h.starting t
  have hstop := h.stopping t
  have hreturned := @Settled.returned τ s t m' h
  generalize hstage : s.callers t = stage at hadvances hseparate hstarting hstop hreturned
  cases hadvances with
  | reject _ => exact .inl (h.relocate (by rw [hstage]; rfl) rfl rfl)
  | accept hrunning =>
      -- no `stop` is on its way, so none has left its worker behind
      have hnone := hseparate rfl hrunning
      refine .inr ⟨rfl, forall_update (fun c => c.isStopping = false) rfl hnone, ?_, ?_⟩
      · intro u hu
        by_contra hne
        have hother : (Function.update s.callers t .creating u).isStarting = true := hu
        rw [Function.update_of_ne hne, h.starting u] at hother
        cases hother
      · show CommunicationMembers.Launch _ (Function.update s.callers t .creating t)
        rw [Function.update_self]
        exact h.stopped hrunning hnone
  | store => exact .inl (h.goOn rfl rfl rfl rfl trivial)
  | joinable _ => exact .inl (h.goOn rfl rfl (hstop rfl) rfl trivial)
  | @join worker hthread =>
      exact .inl (h.goOn rfl rfl (hstop rfl) rfl ⟨hbound worker hthread, .inl hthread⟩)
  | notJoinable hthread =>
      exact .inl (h.leave rfl rfl hthread (hreturned (.notJoinable hthread) rfl).1)
  | joinThrows hthread =>
      exact .inl (h.leave rfl rfl hthread (hreturned (.joinThrows hthread) rfl).1)
  | joined hended => exact .inl (h.leave rfl rfl rfl (hreturned (.joined hended) rfl).1)
  | _ => cases hstarting

/-- Another thread may go where it is within neither. -/
theorem Launching.relocate {u : τ} (h : s.Launching t) (hne : t ≠ u)
    (hstarting : stage.isStarting = false) (hstopping : stage.isStopping = false) :
    ({ s with callers := Function.update s.callers u stage } :
      CommunicationLifecycle τ).Launching t where
  running := h.running
  stopping := forall_update (fun c => c.isStopping = false) hstopping h.stopping
  unique v hv := by
    have hv : (Function.update s.callers u stage v).isStarting = true := hv
    rcases eq_or_ne v u with rfl | hother
    · rw [Function.update_self, hstarting] at hv
      cases hv
    · rw [Function.update_of_ne hother] at hv
      exact h.unique v hv
  place := by
    show s.members.Launch (Function.update s.callers u stage t)
    rw [Function.update_of_ne hne]
    exact h.place

/-- The `start` goes on. -/
theorem Launching.goOn (h : s.Launching t) (hrunning : m'.running = true)
    (hplace : m'.Launch stage) :
    (⟨m', Function.update s.callers t stage⟩ : CommunicationLifecycle τ).Launching t where
  running := hrunning
  stopping := forall_update (fun c => c.isStopping = false)
    (CallStage.isStopping_of_isStarting hplace.isStarting) h.stopping
  unique u hu := by
    by_contra hne
    have hother : (Function.update s.callers t stage u).isStarting = true := hu
    rw [Function.update_of_ne hne] at hother
    exact hne (h.unique u hother)
  place := by
    show m'.Launch (Function.update s.callers t stage t)
    rwa [Function.update_self]

/-- The `start` returns: `thread_` holds the only worker that may be alive. -/
theorem Launching.leave (h : s.Launching t) {worker : Nat}
    (honly : ∀ i, s.members.Live i → i = worker) :
    (⟨{ s.members with thread := some worker }, Function.update s.callers t .outside⟩ :
      CommunicationLifecycle τ).Settled where
  starting u := by
    show (Function.update s.callers t .outside u).isStarting = false
    rcases eq_or_ne u t with rfl | hne
    · rw [Function.update_self]
      rfl
    · rw [Function.update_of_ne hne]
      exact Bool.eq_false_iff.mpr fun hu => hne (h.unique u hu)
  live i hlive := congrArg some (honly i hlive).symm
  stopping := forall_update (fun c => c.isStopping = true → _) (by rintro ⟨⟩) fun u hu => by
    rw [h.stopping u] at hu
    cases hu
  stopped hrunning := by
    have hrunning : s.members.running = false := hrunning
    rw [h.running] at hrunning
    cases hrunning
  joining u := CommunicationMembers.join_of_not_isStopping
    (forall_update (fun c => c.isStopping = false) rfl h.stopping u)

/-- While a `start` is on its way, it goes on or returns, and every other is turned down. -/
theorem Launching.proceed {u : τ} {stage' : CallStage} (h : s.Launching t)
    (hbound : ∀ i, s.members.thread = some i → i < s.members.workers.length)
    (hadvances : s.members.Advances (s.callers u) m' stage')
    (hseparate : s.callers u = .storing → ∀ v, (s.callers v).isStarting = false) :
    (⟨m', Function.update s.callers u stage'⟩ : CommunicationLifecycle τ).Settled ∨
      (⟨m', Function.update s.callers u stage'⟩ : CommunicationLifecycle τ).Launching t := by
  have hstarting := h.place.isStarting
  have hlaunch := h.launch (u := u)
  have hunique := h.unique u
  have hstopping := h.stopping u
  generalize hstage : s.callers u = stage at hadvances hseparate hlaunch hunique hstopping
  cases hadvances with
  | reject _ =>
      refine .inr (h.relocate ?_ rfl rfl)
      rintro rfl
      rw [hstage] at hstarting
      cases hstarting
  | accept hrunning =>
      rw [h.running] at hrunning
      cases hrunning
  | create =>
      obtain rfl := hunique rfl
      have hnone : ∀ i, ¬ s.members.Live i := hlaunch rfl
      refine .inr (h.goOn h.running ⟨by simp, fun hthread => ?_, fun i hlive => ?_⟩)
      · exact absurd (hbound _ hthread) (Nat.lt_irrefl _)
      · exact (CommunicationMembers.live_create rfl hlive).resolve_left (hnone i)
  | assign _ =>
      obtain rfl := hunique rfl
      obtain ⟨-, -, honly⟩ := hlaunch rfl
      exact .inl (h.leave honly)
  | replace hthread =>
      obtain rfl := hunique rfl
      obtain ⟨hlt, hother, honly⟩ := hlaunch rfl
      rw [hthread] at hother
      exact .inr (h.goOn h.running
        ⟨hlt, hbound _ hthread, fun heq => hother (congrArg some heq), honly⟩)
  | replaced _ =>
      obtain rfl := hunique rfl
      obtain ⟨-, -, -, honly⟩ := hlaunch rfl
      exact .inl (h.leave honly)
  | store =>
      -- only here could the flag be lowered under a `start`
      rw [hseparate rfl t] at hstarting
      cases hstarting
  | _ => cases hstopping

/-- A call that begins changes nothing. -/
theorem Consistent.call {entry : CallStage} (h : s.Consistent) (hcall : s.call t entry = some s')
    (hstarting : entry.isStarting = false) (hstopping : entry.isStopping = false) :
    s'.Consistent := by
  obtain ⟨houtside, rfl⟩ := call_cases hcall
  refine ⟨h.thread, ?_⟩
  rcases h.phase with hsettled | ⟨u, hlaunching⟩
  · exact .inl (hsettled.relocate (by rw [houtside]; rfl) hstarting hstopping)
  · refine .inr ⟨u, hlaunching.relocate ?_ hstarting hstopping⟩
    rintro rfl
    have hlaunch := hlaunching.place
    rwa [houtside] at hlaunch

theorem Consistent.step {event : CommunicationEvent τ} (h : s.Consistent)
    (hstep : SeparateStep s event s') : s'.Consistent := by
  obtain ⟨hstep, hseparate⟩ := hstep
  cases event with
  | start t => exact h.call hstep rfl rfl
  | stop t => exact h.call hstep rfl rfl
  | proceed t =>
      obtain ⟨m', stage, hadvances, rfl⟩ := proceed_cases hstep
      refine ⟨thread_lt_of_advances h.thread (fun _ => h.worker_lt) hadvances, ?_⟩
      rcases h.phase with hsettled | ⟨u, hlaunching⟩
      · rcases hsettled.proceed h.thread hadvances hseparate.1 with hdone | hdone
        · exact .inl hdone
        · exact .inr ⟨t, hdone⟩
      · rcases hlaunching.proceed h.thread hadvances hseparate.2 with hdone | hdone
        · exact .inl hdone
        · exact .inr ⟨u, hdone⟩
  | work i decoded =>
      obtain ⟨m', hwork, rfl⟩ := Option.map_eq_some_iff.mp hstep
      refine ⟨?_, ?_⟩
      · obtain ⟨before, after, -, -, rfl⟩ := CommunicationMembers.work_cases hwork
        intro j hj
        rw [List.length_set]
        exact h.thread j hj
      · rcases h.phase with hsettled | ⟨u, hlaunching⟩
        · exact .inl (hsettled.work hwork)
        · exact .inr ⟨u, hlaunching.work hwork⟩

theorem ReachedSeparately.consistent (h : s.ReachedSeparately) : s.Consistent := by
  refine h.invariant Consistent ?_ fun _ _ _ => Consistent.step
  rintro start rfl
  exact consistent_initial

end CommunicationLifecycle

end RobotController.Communication
