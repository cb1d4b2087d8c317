/-
  Communication/SingleWorker.lean --- how many communication workers run.

  Source: `communication/CanCommunication.cpp` (`start`, `stop`, `run`).

  `running_` says both that a worker exists and that it should go on.  While a `start` that is
  accepted and a `stop` stay apart, at most one worker runs, and who waits for it has told it
  to end.  When they overlap, the flag may be raised again before the old worker has seen it
  lowered.
-/
import RobotController.Communication.CommunicationInvariant

set_option autoImplicit false

namespace RobotController.Communication

open RobotController.Foundation

namespace CommunicationLifecycle

variable {τ : Type} {s s' : CommunicationLifecycle τ} {t : τ} {i : Nat}
  {m' : CommunicationMembers}

/-! ## Waiting -/

/-- Worker `i` has been created; while it is alive, `running_` is false and thread `t` waits
for it. -/
def Ending (t : τ) (i : Nat) (s : CommunicationLifecycle τ) : Prop :=
  i < s.members.workers.length ∧
    (s.members.Live i → s.members.running = false ∧ s.callers t = .joining i)

/-- Within a settled state only a `stop` waits. -/
theorem Settled.ending (h : s.Settled) (hawaited : (s.callers t).awaited = some i) :
    Ending t i s := by
  have hstarting := h.starting t
  have hstopping := h.stopping t
  have hjoining := h.joining t
  cases hstage : s.callers t with
  | joining worker =>
      rw [hstage] at hawaited hstopping hjoining
      obtain rfl := Option.some.inj hawaited
      exact ⟨hjoining.1, fun _ => ⟨hstopping rfl, hstage⟩⟩
  | replacing worker old =>
      rw [hstage] at hstarting
      cases hstarting
  | _ =>
      rw [hstage] at hawaited
      cases hawaited

/-- The worker that a `start` replaces has ended. -/
theorem Launching.ending {u : τ} (h : s.Launching u)
    (hawaited : (s.callers t).awaited = some i) : Ending t i s := by
  have hstopping := h.stopping t
  have hlaunch := h.launch (u := t)
  cases hstage : s.callers t with
  | replacing worker old =>
      rw [hstage] at hawaited hlaunch
      obtain rfl := Option.some.inj hawaited
      obtain ⟨-, hold, hother, honly⟩ := hlaunch rfl
      exact ⟨hold, fun hlive => absurd (honly old hlive) hother⟩
  | joining worker =>
      rw [hstage] at hstopping
      cases hstopping
  | _ =>
      rw [hstage] at hawaited
      cases hawaited

/-- An operation of the worker brings it closer to its end. -/
theorem Ending.work {j : Nat} {decoded : Bool} (h : Ending t i s)
    (hwork : s.members.work j decoded = some m') :
    Ending t i { s with members := m' } ∧
      (if i = j then 1 else 0) + m'.remaining i ≤ s.members.remaining i := by
  obtain ⟨hlt, hlive⟩ := h
  have hback : m'.Live i → s.members.Live i := CommunicationMembers.live_work hwork
  have hleft := CommunicationMembers.remaining_work hwork fun hi => (hlive hi).1
  obtain ⟨before, after, -, -, rfl⟩ := CommunicationMembers.work_cases hwork
  exact ⟨⟨by rwa [List.length_set], fun hi => hlive (hback hi)⟩, hleft⟩

variable [DecidableEq τ]

/-- Thread `t` waits within its call. -/
def Waiting (t : τ) (s : CommunicationLifecycle τ) : Prop :=
  s.callers t ≠ .outside ∧ s.next (.proceed t) = none

/-- Who waits within a call waits for a worker that has been told to end. -/
theorem Consistent.ending (h : s.Consistent) (hwaiting : s.Waiting t) :
    ∃ i, (s.callers t).awaited = some i ∧ s.members.Live i ∧ Ending t i s := by
  obtain ⟨hinside, hnone⟩ := hwaiting
  obtain ⟨i, hawaited, hended⟩ :=
    CommunicationMembers.awaited_of_advance_eq_none (Option.map_eq_none_iff.mp hnone) hinside
  have hending : Ending t i s := by
    rcases h.phase with hsettled | ⟨u, hlaunching⟩
    · exact hsettled.ending hawaited
    · exact hlaunching.ending hawaited
  refine ⟨i, hawaited, ?_, hending⟩
  by_contra hdead
  rw [(CommunicationMembers.hasEnded_iff hending.1).mpr hdead] at hended
  cases hended

/-- Who would join a worker that is alive waits. -/
theorem waiting_of_live (hawaited : (s.callers t).awaited = some i) (hlive : s.members.Live i) :
    s.Waiting t := by
  have hended : s.members.hasEnded i = false :=
    Bool.eq_false_iff.mpr fun hended => CommunicationMembers.not_live_of_hasEnded hended hlive
  refine ⟨?_, Option.map_eq_none_iff.mpr ?_⟩
  · intro houtside
    rw [houtside] at hawaited
    cases hawaited
  · cases hstage : s.callers t with
    | replacing worker old | joining worker =>
        rw [hstage] at hawaited
        obtain rfl := Option.some.inj hawaited
        simp [CommunicationMembers.advance, hended]
    | _ =>
        rw [hstage] at hawaited
        cases hawaited

theorem Ending.call {u : τ} {entry : CallStage} (h : Ending t i s)
    (hcall : s.call u entry = some s') :
    Ending t i s' ∧ s'.members.remaining i = s.members.remaining i := by
  obtain ⟨hlt, hlive⟩ := h
  obtain ⟨houtside, rfl⟩ := call_cases hcall
  refine ⟨⟨hlt, fun hi => ⟨(hlive hi).1, ?_⟩⟩, rfl⟩
  have hne : t ≠ u := by
    rintro rfl
    rw [(hlive hi).2] at houtside
    cases houtside
  exact (Function.update_of_ne hne ..).trans (hlive hi).2

/-- Nobody raises `running_` before the worker has ended. -/
theorem Ending.proceed {u : τ} (h : Ending t i s) (hproceed : s.proceed u = some s')
    (hseparate : s.Separate (.proceed u)) :
    Ending t i s' ∧ s'.members.remaining i = s.members.remaining i := by
  obtain ⟨hlt, hlive⟩ := h
  obtain ⟨m', stage, hadvances, rfl⟩ := proceed_cases hproceed
  have hsame := hadvances.workers hlt
  refine ⟨⟨?_, fun hi => ?_⟩, CommunicationMembers.remaining_congr hsame⟩
  · have hcreated := List.getElem?_eq_getElem hlt
    rw [← hsame] at hcreated
    exact (List.getElem?_eq_some_iff.mp hcreated).choose
  · rw [CommunicationMembers.live_congr hsame] at hi
    obtain ⟨hrunning, hjoining⟩ := hlive hi
    -- thread `t` is still within its `stop`, so no `start` is accepted
    have hexchanging : s.callers u ≠ .exchanging := by
      intro hexchanging
      have hnone := hseparate.1 hexchanging hrunning t
      rw [hjoining] at hnone
      cases hnone
    have hne : t ≠ u := by
      rintro rfl
      rw [hjoining] at hadvances
      cases hadvances with
      | joined hended => exact CommunicationMembers.not_live_of_hasEnded hended hi
    exact ⟨hadvances.running hexchanging hrunning, (Function.update_of_ne hne ..).trans hjoining⟩

/-- A worker that is to end takes no step without coming closer to it. -/
theorem Ending.step {event : CommunicationEvent τ} (h : Ending t i s)
    (hstep : SeparateStep s event s') :
    Ending t i s' ∧
      (if event.isWorkOf i then 1 else 0) + s'.members.remaining i ≤ s.members.remaining i := by
  obtain ⟨hstep, hseparate⟩ := hstep
  cases event with
  | start u =>
      obtain ⟨hending, hsame⟩ := h.call hstep
      exact ⟨hending, Nat.le_of_eq ((Nat.zero_add _).trans hsame)⟩
  | stop u =>
      obtain ⟨hending, hsame⟩ := h.call hstep
      exact ⟨hending, Nat.le_of_eq ((Nat.zero_add _).trans hsame)⟩
  | proceed u =>
      obtain ⟨hending, hsame⟩ := h.proceed hstep hseparate
      exact ⟨hending, Nat.le_of_eq ((Nat.zero_add _).trans hsame)⟩
  | work j decoded =>
      obtain ⟨m', hwork, rfl⟩ := Option.map_eq_some_iff.mp hstep
      obtain ⟨hending, hleft⟩ := h.work hwork
      exact ⟨hending, by simpa [CommunicationEvent.isWorkOf] using hleft⟩

theorem Ending.execution {trace : List (CommunicationEvent τ)}
    (hexec : Execution SeparateStep s trace s') : Ending t i s →
      Ending t i s' ∧ trace.countP (CommunicationEvent.isWorkOf i) + s'.members.remaining i ≤
        s.members.remaining i := by
  induction hexec with
  | refl _ => exact fun h => ⟨h, Nat.le_of_eq (Nat.zero_add _)⟩
  | cons hstep _ ih =>
      intro h
      obtain ⟨hnext, hone⟩ := h.step hstep
      obtain ⟨hlast, hrest⟩ := ih hnext
      refine ⟨hlast, ?_⟩
      rw [List.countP_cons]
      omega

/-! ## One worker -/

/-- A `stop` that returns leaves no worker. -/
theorem Consistent.returned (h : s.Consistent) (hstep : Step s (.proceed t) s')
    (hstopping : (s.callers t).isStopping = true) (houtside : s'.callers t = .outside) :
    ∀ i, ¬ s'.members.Live i := by
  obtain ⟨m', stage, hadvances, rfl⟩ := proceed_cases hstep
  obtain rfl : stage = .outside := by simpa using houtside
  rcases h.phase with hsettled | ⟨u, hlaunching⟩
  · exact (hsettled.returned hadvances hstopping).1
  · rw [hlaunching.stopping t] at hstopping
    cases hstopping

/-- Only a creation adds a worker; none that has ended comes back. -/
theorem workers_of_step {event : CommunicationEvent τ} (hstep : Step s event s') :
    s'.members.workers.length = s.members.workers.length + 1 ∨
      s'.members.workers.length = s.members.workers.length ∧
        ∀ i, s'.members.Live i → s.members.Live i := by
  cases event with
  | start u | stop u =>
      obtain ⟨-, rfl⟩ := call_cases hstep
      exact .inr ⟨rfl, fun _ => id⟩
  | proceed u =>
      obtain ⟨m', stage, hadvances, rfl⟩ := proceed_cases hstep
      generalize s.callers u = before at hadvances
      cases hadvances with
      | create => exact .inl List.length_append
      | _ => exact .inr ⟨rfl, fun _ => id⟩
  | work j decoded =>
      obtain ⟨m', hwork, rfl⟩ := Option.map_eq_some_iff.mp hstep
      have hback : ∀ i, m'.Live i → s.members.Live i :=
        fun _ => CommunicationMembers.live_work hwork
      obtain ⟨before, after, -, -, rfl⟩ := CommunicationMembers.work_cases hwork
      exact .inr ⟨List.length_set, hback⟩

/-- As long as a `start` that is accepted and a `stop` do not overlap, at most one thread is
executing `run`; a `stop` that returns leaves none; and who waits within a call waits for a
worker that has at most so many operations left, since `running_` is false until it ends. -/
theorem at_most_one_worker (hs : s.ReachedSeparately) :
    (∀ i j, s.members.Live i → s.members.Live j → i = j) ∧
      (∀ t s', Step s (.proceed t) s' → (s.callers t).isStopping = true →
        s'.callers t = .outside → ∀ i, ¬ s'.members.Live i) ∧
      ∀ t, s.Waiting t → ∃ i, (s.callers t).awaited = some i ∧ s.members.Live i ∧
        ∀ (trace : List (CommunicationEvent τ)) (s' : CommunicationLifecycle τ),
          Execution SeparateStep s trace s' →
            (s'.members.Live i → s'.members.running = false) ∧
              trace.countP (CommunicationEvent.isWorkOf i) + s'.members.remaining i ≤
                s.members.remaining i := by
  have hconsistent := hs.consistent
  refine ⟨fun i j => hconsistent.unique, fun t s' => hconsistent.returned,
    fun t hwaiting => ?_⟩
  obtain ⟨i, hawaited, hlive, hending⟩ := hconsistent.ending hwaiting
  refine ⟨i, hawaited, hlive, fun trace s' hexec => ?_⟩
  obtain ⟨hlater, hcount⟩ := Ending.execution hexec hending
  exact ⟨fun hi => (hlater.2 hi).1, hcount⟩

/-- A worker is started, and a `stop` comes to wait for it. -/
def startAndStop : List (CommunicationEvent Unit) :=
  [.start (), .proceed (), .proceed (), .proceed (), .stop (), .proceed (), .proceed (),
    .proceed ()]

theorem at_most_one_worker_waiting :
    ∃ s : CommunicationLifecycle Unit, s.ReachedSeparately ∧ s.Waiting () ∧
      s.members.workers = [.checking] ∧ s.members.running = false := by
  have hrun : ∃ s : CommunicationLifecycle Unit, startAndStop.foldlM next initial = some s ∧
      s.callers () = .joining 0 ∧ s.next (.proceed ()) = none ∧
      s.members.workers = [.checking] := ⟨_, rfl, rfl, rfl, rfl⟩
  obtain ⟨s, hs, hjoining, hnone, hworkers⟩ := hrun
  have hseparate : ∀ (s : CommunicationLifecycle Unit) event s', s.next event = some s' →
      SeparateStep s event s' := fun s event _ hstep => ⟨hstep, s.separate_of_subsingleton event⟩
  have hreached : s.ReachedSeparately :=
    ⟨initial, _, rfl, Execution.of_schedule hseparate _ hs⟩
  have hwaiting : s.Waiting () := ⟨by rw [hjoining]; simp, hnone⟩
  obtain ⟨i, hawaited, hlive, hlater⟩ := (at_most_one_worker hreached).2.2 () hwaiting
  exact ⟨s, hreached, hwaiting, hworkers, (hlater [] s (.refl s)).1 hlive⟩

/-! ## Overlapping calls -/

/-- Every caller waits for a worker that is alive, while `running_` is true. -/
structure Deadlocked (i : Nat) (s : CommunicationLifecycle τ) : Prop where
  running : s.members.running = true
  live : s.members.Live i
  callers : ∀ t, (s.callers t).awaited = some i

/-- The worker sees that it should go on, so nobody ever returns. -/
theorem Deadlocked.step {event : CommunicationEvent τ} (h : s.Deadlocked i)
    (hstep : Step s event s') : s'.Deadlocked i := by
  have hcall : ∀ {u : τ} {entry : CallStage}, s.call u entry ≠ some s' := by
    intro u entry hcall
    have hcaller := h.callers u
    rw [(call_cases hcall).1] at hcaller
    cases hcaller
  cases event with
  | start u => exact absurd hstep hcall
  | stop u => exact absurd hstep hcall
  | proceed u =>
      obtain ⟨m', stage, hadvances, rfl⟩ := proceed_cases hstep
      have hcaller := h.callers u
      generalize s.callers u = before at hadvances hcaller
      cases hadvances with
      | replaced hended | joined hended =>
          obtain rfl := Option.some.inj hcaller
          exact absurd h.live (CommunicationMembers.not_live_of_hasEnded hended)
      | _ => cases hcaller
  | work j decoded =>
      obtain ⟨m', hwork, rfl⟩ := Option.map_eq_some_iff.mp hstep
      obtain ⟨before, after, hbefore, hnext, rfl⟩ := CommunicationMembers.work_cases hwork
      refine ⟨h.running, ?_, h.callers⟩
      rw [h.running] at hnext
      rcases eq_or_ne j i with rfl | hne
      · have hlt := (List.getElem?_eq_some_iff.mp hbefore).choose
        exact ⟨after, List.getElem?_set_self hlt, RunStage.next_ne_ended hnext⟩
      · obtain ⟨stage, hstage, hstays⟩ := h.live
        exact ⟨stage, (List.getElem?_set_ne hne).trans hstage, hstays⟩

theorem Deadlocked.waiting (h : s.Deadlocked i) (t : τ) : s.Waiting t :=
  waiting_of_live (h.callers t) h.live

/-- One thread has started a worker and stops it; before the worker has looked at `running_`,
the other thread starts another.  Then the first goes on to join the old worker, and so does
the assignment of the second. -/
def overlap : List (CommunicationEvent Bool) :=
  [.start false, .proceed false, .proceed false, .proceed false, .work 0 true, .stop false,
    .proceed false, .start true, .proceed true, .proceed true, .proceed false, .proceed false,
    .proceed true, .work 0 true, .work 1 true, .work 1 true]

/-- Two workers publish, and both calls wait for ever. -/
theorem two_workers_of_overlap :
    ∃ s : CommunicationLifecycle Bool, s.Reached ∧
      s.members.workers = [.publishing, .publishing] ∧
      ∀ (trace : List (CommunicationEvent Bool)) (s' : CommunicationLifecycle Bool),
        Execution Step s trace s' →
          s'.members.running = true ∧ s'.members.Live 0 ∧ ∀ t, s'.Waiting t := by
  have hrun : ∃ s : CommunicationLifecycle Bool, overlap.foldlM next initial = some s ∧
      s.members.workers = [.publishing, .publishing] ∧ s.members.running = true ∧
      s.callers false = .joining 0 ∧ s.callers true = .replacing 1 0 :=
    ⟨_, rfl, rfl, rfl, rfl, rfl⟩
  obtain ⟨s, hs, hworkers, hrunning, hfirst, hsecond⟩ := hrun
  have hdeadlocked : s.Deadlocked 0 := by
    refine ⟨hrunning, ⟨.publishing, by rw [hworkers]; rfl, by simp⟩, fun t => ?_⟩
    cases t with
    | false => rw [hfirst]; rfl
    | true => rw [hsecond]; rfl
  refine ⟨s, ⟨initial, _, rfl, Execution.of_schedule (fun _ _ _ => id) _ hs⟩, hworkers,
    fun trace s' hexec => ?_⟩
  have hlater : s'.Deadlocked 0 := hexec.keeps (fun _ _ _ h hstep => h.step hstep) hdeadlocked
  exact ⟨hlater.running, hlater.live, hlater.waiting⟩

end CommunicationLifecycle

end RobotController.Communication
