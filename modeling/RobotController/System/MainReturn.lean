/-
  System/MainReturn.lean --- `main` returns.

  Source: `main.cpp`.

  Nothing that `main` waits for keeps it for ever: the mutexes are free, the run it asks for
  is accepted and its cycles are counted, and the communication thread that `stop` joins has
  been told to end.  So in a run that passes none of the three threads over for good, `main`
  comes from each of its places to the next, and in the end every thread has ended.
-/
import RobotController.Foundation.FairRuns
import RobotController.System.AcceptedRun
import RobotController.System.CommunicationEnd
import RobotController.System.LoopEnd
import RobotController.System.MainProgram

set_option autoImplicit false

namespace RobotController.System

open RobotController.Foundation RobotController.Core RobotController.Communication
open RobotController.Control RobotController.Synchronization

/-! ## Three threads -/

/-- The threads of the program. -/
inductive MainThread where
  | main
  /-- the worker of the control loop -/
  | worker
  | communication
  deriving DecidableEq, Repr

namespace MainCall

/-- Whether two calls have one place that tells where their caller is: `start` and `stop`
do. -/
def interferes : MainCall → MainCall → Bool
  | .start, .start | .start, .stop | .stop, .start | .stop, .stop => true
  | .run, .run | .state, .state => true
  | _, _ => false

variable {R : Type}

/-- Whether an event of the controller belongs to a call. -/
def accesses : MainCall → ControllerEvent R Unit → Bool
  | .run, .lifecycle (.work _) => false
  | .run, .lifecycle _ => true
  | .state, .lockState _ | .state, .accessSnapshot _ | .state, .returnState _ => true
  | _, _ => false

/-- Whether an event changes where the caller of a call is. -/
def touches : MainCall → RestartableEvent R Unit → Bool
  | .start, .call _ | .stop, .call _ => true
  | call, event => event.event.any call.accesses

theorem returned_of_interferes {s : Restartable R Unit} {call other : MainCall}
    (h : call.interferes other = true) (hreturned : other.HasReturned s) :
    call.HasReturned s := by
  cases call <;> cases other <;> first | exact hreturned | cases h

theorem touches_entry (n : Int) (call other : MainCall) :
    call.touches (other.entry n : RestartableEvent R Unit) = call.interferes other := by
  cases call <;> cases other <;> rfl

theorem touches_of_continues {call other : MainCall} {event : RestartableEvent R Unit}
    (h : other.continues event = true) (hother : call.interferes other = false) :
    call.touches event = false := by
  unfold continues at h
  split at h <;> cases call <;> first | rfl | cases hother | cases h

end MainCall

namespace MainProgram

/-- Whose step an event is. -/
def thread {R : Type} : Option (RestartableEvent R Unit) → MainThread
  | some (.program event) => if isMain event then .main else .worker
  | some (.loop _) | some (.published _) | some (.iterate _ _) => .communication
  | none | some (.call _) => .main

section Machine

variable {R : Type} [Double R] [IntConversion R] {n : Int} {m m' : MainProgram R}
  {event : Option (RestartableEvent R Unit)} {visible : RestartableEvent R Unit}
  {s s' : Restartable R Unit}

/-! ## Whose steps lead where -/

omit [Double R] [IntConversion R] in
theorem isBackground_program (step : ControllerEvent R Unit) :
    (RestartableEvent.program step).isBackground = !isMain step := by
  cases step with
  | lifecycle access => cases access <;> rfl
  | _ => rfl

omit [Double R] [IntConversion R] in
theorem thread_of_background (h : visible.isBackground = true) :
    thread (some visible) ≠ .main := by
  cases visible with
  | program step =>
      rw [isBackground_program, Bool.not_eq_true'] at h
      simp [thread, h]
  | call access => cases h
  | _ => simp [thread]

omit [Double R] [IntConversion R] in
theorem thread_of_continues {call : MainCall} (h : call.continues visible = true) :
    thread (some visible) = .main := by
  unfold MainCall.continues at h
  split at h <;> first | rfl | cases h

omit [Double R] [IntConversion R] in
theorem thread_entry (call : MainCall) :
    thread (some (call.entry n : RestartableEvent R Unit)) = .main := by
  cases call <;> rfl

/-- Where `main` goes by its own steps. -/
def mayFollow : MainPlace → MainPlace → Prop
  | .initializing, place => place = .transmitting
  | .transmitting, place => place = .calling .start
  | .calling call, place => place = .within call
  | .within call, place => place = .within call ∨ place = call.next
  | .polling, place => place = .polling ∨ place = .calling .stop
  | .returned, _ => False

/-- The steps of the other threads leave `main` where it is. -/
theorem place_of_step (hstep : Step n m event m') :
    thread event ≠ .main ∧ m'.place = m.place ∨
      thread event = .main ∧ mayFollow m.place m'.place := by
  cases hstep with
  | background hback _ => exact .inl ⟨thread_of_background hback, rfl⟩
  | prepare _ | transmit _ _ => exact .inr ⟨rfl, rfl⟩
  | enter _ => exact .inr ⟨thread_entry _, rfl⟩
  | within hcontinues _ => exact .inr ⟨thread_of_continues hcontinues, .inl rfl⟩
  | leave _ => exact .inr ⟨rfl, .inr rfl⟩
  | poll _ => exact .inr ⟨rfl, .inl rfl⟩
  | polled _ => exact .inr ⟨rfl, .inr rfl⟩

/-- The system takes a step, or `main` alone does. -/
theorem system_of_step (hstep : Step n m event m') :
    event = none ∧ m'.system = m.system ∨
      ∃ visible, event = some visible ∧ m.system.Step visible m'.system := by
  cases hstep with
  | leave _ | poll _ | polled _ => exact .inl ⟨rfl, rfl⟩
  | background _ hstep | prepare hstep | transmit _ hstep | enter hstep | within _ hstep =>
      exact .inr ⟨_, rfl, hstep⟩

theorem Reached.fromNew (h : m.Reached n) : m.system.controller.ReachedFromNew := by
  obtain ⟨start, trace, rfl, hexec⟩ := h
  obtain ⟨-, hsystem⟩ := refines.execution hexec trivial
  exact ⟨_, _, ⟨[], rfl⟩,
    (Restartable.refines.execution hsystem (Restartable.aligned_initial _)).2⟩

theorem Reached.handed (h : m.Reached n) : m.system.Handed := by
  refine h.invariant_of_reachable (fun m => m.system.Handed) ?_ fun m _ m' hm hs hstep => ?_
  · rintro start rfl i hi
    cases hi
  · rcases system_of_step hstep with ⟨-, hsame⟩ | ⟨visible, -, hsystem⟩
    · exact hsame ▸ hs
    · exact hs.step (Reached.aligned hm) hsystem

/-! ## Nobody else is inside -/

section Free

variable {c c' : Controller R Unit} {taken : ControllerEvent R Unit} {call : MainCall}

theorem loopCallers_of_step (hstep : c.Step taken c')
    (hother : MainCall.run.accesses taken = false) :
    c'.loop.callers = c.loop.callers := by
  have hwork : ∀ {i : Nat} {loop : Lifecycle Unit},
      Lifecycle.Step c.loop (.work i) loop → loop.callers = c.loop.callers := by
    intro i loop hwork
    obtain ⟨members, -, rfl⟩ := Option.map_eq_some_iff.mp hwork
    rfl
  cases hstep with
  | @lifecycle access _ _ hloop =>
      cases access with
      | work i => exact hwork hloop
      | _ => cases hother
  | endCycle _ _ _ _ hloop => exact hwork hloop
  | _ => rfl

/-- An access of another call does not call this one again. -/
theorem returned_of_step (haligned : s.Aligned) (hstep : s.Step visible s')
    (hother : call.touches visible = false) (h : call.HasReturned s) : call.HasReturned s' := by
  have hcommunication : (∀ access, visible ≠ .call access) →
      s'.communication.callers = s.communication.callers := fun hcall =>
    (communication_of_step hstep hcall).2
  cases call with
  | start | stop =>
      have hcallers := hcommunication (by rintro access rfl; cases hother)
      exact (congrFun hcallers ()).trans h
  | run =>
      rcases cases_of_step haligned hstep with ⟨-, hsame⟩ | ⟨step, hevent, hstep'⟩
      · exact (congrArg (fun c : Controller R Unit => c.loop.callers ()) hsame).trans h
      · have haccess : MainCall.run.accesses step = false := by
          simpa [MainCall.touches, hevent] using hother
        exact (congrFun (loopCallers_of_step hstep' haccess) ()).trans h
  | state =>
      rcases cases_of_step haligned hstep with ⟨-, hsame⟩ | ⟨step, hevent, hstep'⟩
      · exact (congrArg Controller.stateMutex hsame).trans h
      · have haccess : MainCall.state.accesses step = false := by
          simpa [MainCall.touches, hevent] using hother
        refine (mutex_of_step hstep' ?_ ?_).trans h
        · rintro t rfl
          cases haccess
        · rintro t rfl
          cases haccess

theorem not_touches_of_background (hstep : s.Step visible s')
    (hback : visible.isBackground = true) : call.touches visible = false := by
  have hother : ∀ step, visible.event = some step → call.accesses step = false := by
    intro step hevent
    have hmain := isMain_of_background hstep hback hevent
    cases step with
    | lifecycle access => cases access <;> cases call <;> first | rfl | cases hmain
    | _ => cases call <;> first | rfl | cases hmain
  cases visible with
  | program step | iterate i step => cases call <;> exact hother step rfl
  | call access => cases hback
  | _ => cases call <;> rfl

/-- A call that `main` is not within has returned. -/
def Free (m : MainProgram R) : Prop :=
  ∀ call : MainCall, (∀ other, m.place = .within other → call.interferes other = false) →
    call.HasReturned m.system

theorem Free.step (h : m.Free) (hm : m.Reached n) (hstep : Step n m event m') : m'.Free := by
  intro call hother
  cases hstep with
  | background hback hstep =>
      exact returned_of_step hm.aligned hstep (not_touches_of_background hstep hback)
        (h call hother)
  | prepare hstep | transmit _ hstep =>
      exact returned_of_step hm.aligned hstep (by cases call <;> rfl) (h call (by simp))
  | @enter _ _ entered hstep =>
      have htouches : call.touches (entered.entry n : RestartableEvent R Unit) = false :=
        (MainCall.touches_entry n call entered).trans (hother entered rfl)
      exact returned_of_step hm.aligned hstep htouches (h call (by simp))
  | @within _ _ entered _ hcontinues hstep =>
      have htouches := MainCall.touches_of_continues hcontinues (hother entered rfl)
      exact returned_of_step hm.aligned hstep htouches (h call hother)
  | @leave _ left hreturned =>
      cases hsame : call.interferes left with
      | true => exact MainCall.returned_of_interferes hsame hreturned
      | false =>
          refine h call fun other hplace => ?_
          obtain rfl : left = other := by simpa using hplace
          exact hsame
  | poll _ | polled _ => exact h call (by simp)

theorem Reached.free (h : m.Reached n) : m.Free := by
  refine h.invariant_of_reachable Free ?_ fun _ _ _ hm hs hstep => hs.step hm hstep
  rintro start rfl call -
  cases call <;> rfl

end Free

/-! ## The run that is asked for -/

section Accepted

variable {c c' : Controller R Unit} {taken : ControllerEvent R Unit} {runs : List Int}

theorem accepted_of_step (hc : c.Reached) (h : c.loop.Accepted runs)
    (honly : List.Sublist runs [n]) (hn : 0 < n) (hstep : c.Step taken c')
    (hother : ∀ access, taken = .lifecycle access → Lifecycle.isOther access = false) :
    c'.loop.Accepted (runs ++ askedBy taken) := by
  cases hstep with
  | lifecycle _ hloop => exact h.step hc.lifecycle honly hn hloop (hother _ rfl)
  | endCycle _ _ _ _ hloop => exact h.step hc.lifecycle honly hn hloop rfl
  | _ => exact (List.append_nil runs).symm ▸ h

theorem sublist_requested (n : Int) (place : MainPlace) :
    List.Sublist (requested n place) [n] := by
  unfold requested
  split
  · exact List.nil_sublist _
  · exact List.nil_sublist _
  · exact List.nil_sublist _
  · exact List.nil_sublist _
  · exact List.nil_sublist _
  · exact List.Sublist.refl _

/-- What has been asked for follows from the place. -/
theorem requested_of_step (hstep : Step n m event m') :
    requested n m'.place =
      requested n m.place ++ (event.bind RestartableEvent.event).elim [] askedBy := by
  cases hstep with
  | @background _ _ _ visible hback hstep =>
      cases hevent : visible.event with
      | none => simp [hevent]
      | some step =>
          obtain ⟨hasked, -⟩ := nothing_of_not_isMain (isMain_of_background hstep hback hevent)
          simp [hevent, hasked]
  | prepare _ | transmit _ _ | poll _ | polled _ =>
      simp [RestartableEvent.event, askedBy, requested]
  | @enter _ _ call _ => cases call <;> rfl
  | within hcontinues _ =>
      rcases MainCall.continues_cases hcontinues with
        ⟨-, t, rfl⟩ | ⟨-, access, hasked, rfl⟩ | ⟨-, t, rfl | rfl⟩
      · simp [RestartableEvent.event]
      · simp [RestartableEvent.event, askedBy, hasked]
      · simp [RestartableEvent.event, askedBy]
      · simp [RestartableEvent.event, askedBy]
  | @leave _ call _ => cases call <;> rfl

/-- The loop is called for one run, and its worker works. -/
theorem access_of_step (hstep : Step n m event m') {visible : RestartableEvent R Unit}
    (hvisible : event = some visible) {access : LifecycleEvent Unit}
    (hevent : visible.event = some (.lifecycle access)) :
    (∃ i, access = .work i) ∨ m.place = .calling .run ∧ access = .call () (.wantsRun n) ∨
      ∃ t, access = .acquire t ∨ access = .proceed t ∨ access = .release t := by
  cases hstep with
  | background hback hstep =>
      obtain rfl := Option.some.inj hvisible
      have hmain := isMain_of_background hstep hback hevent
      cases access <;> first | exact .inl ⟨_, rfl⟩ | cases hmain
  | prepare _ | transmit _ _ =>
      obtain rfl := Option.some.inj hvisible
      cases hevent
  | @enter _ _ call _ =>
      obtain rfl := Option.some.inj hvisible
      cases call with
      | run =>
          obtain rfl : LifecycleEvent.call () (.wantsRun n) = access := by
            simpa [MainCall.entry, RestartableEvent.event] using hevent
          exact .inr (.inl ⟨rfl, rfl⟩)
      | _ => cases hevent
  | within hcontinues _ =>
      obtain rfl := Option.some.inj hvisible
      rcases MainCall.continues_cases hcontinues with
        ⟨-, t, rfl⟩ | ⟨rfl, other, -, rfl⟩ | ⟨-, t, rfl | rfl⟩
      · cases hevent
      · obtain rfl : other = access := by simpa [RestartableEvent.event] using hevent
        cases other with
        | acquire t => exact .inr (.inr ⟨t, .inl rfl⟩)
        | proceed t => exact .inr (.inr ⟨t, .inr (.inl rfl)⟩)
        | release t => exact .inr (.inr ⟨t, .inr (.inr rfl)⟩)
        | _ => cases hcontinues
      · cases hevent
      · cases hevent
  | leave _ | poll _ | polled _ => cases hvisible

theorem Reached.accepted (h : m.Reached n) (hn : 0 < n) :
    m.system.controller.loop.Accepted (requested n m.place) := by
  refine h.invariant_of_reachable
    (fun m => m.system.controller.loop.Accepted (requested n m.place)) ?_
    fun m event m' hm hs hstep => ?_
  · rintro start rfl
    exact Lifecycle.accepted_initial
  · have hreached : m.Reached n := hm
    rw [requested_of_step hstep]
    rcases system_of_step hstep with ⟨rfl, hsame⟩ | ⟨visible, rfl, hsystem⟩
    · rw [hsame, Option.bind_none, Option.elim_none, List.append_nil]
      exact hs
    · rw [Option.bind_some]
      rcases cases_of_step hreached.aligned hsystem with
        ⟨hnone, hsame⟩ | ⟨taken, htaken, hstep'⟩
      · rw [hnone, hsame, Option.elim_none, List.append_nil]
        exact hs
      · rw [htaken, Option.elim_some]
        refine accepted_of_step hreached.controller hs (sublist_requested n _) hn hstep' ?_
        rintro access rfl
        rcases access_of_step hstep rfl htaken with
          ⟨i, rfl⟩ | ⟨-, rfl⟩ | ⟨t, rfl | rfl | rfl⟩ <;> rfl

end Accepted

/-! ## One step of `main` -/

section Next

/-- The program with `main` at a place. -/
structure At (n : Int) (place : MainPlace) (m : MainProgram R) : Prop where
  reached : m.Reached n
  place : m.place = place

variable {run : Run (Step (R := R) n)} {p q : MainPlace} {call : MainCall}

theorem At.step (h : At n p m) (hstep : Step n m event m') :
    thread event ≠ .main ∧ At n p m' ∨
      thread event = .main ∧ ∃ next, mayFollow p next ∧ At n next m' := by
  have hm' := h.reached.step hstep
  rcases place_of_step hstep with ⟨hother, hplace⟩ | ⟨hmain, hfollow⟩
  · exact .inl ⟨hother, hm', hplace.trans h.place⟩
  · exact .inr ⟨hmain, m'.place, h.place ▸ hfollow, hm', rfl⟩

theorem At.other (h : At n p m) (hstep : Step n m event m') (hother : thread event ≠ .main) :
    At n p m' := by
  rcases h.step hstep with ⟨-, h'⟩ | ⟨hmain, -⟩
  · exact h'
  · exact absurd hmain hother

/-- A place with one step that is always possible. -/
theorem leadsTo_next (hfair : run.Fair thread) (hnext : ∀ place, mayFollow p place → place = q)
    (henabled : ∀ m : MainProgram R, At n p m → Enabled (Step n) thread .main m) :
    run.LeadsTo (At n p) (At n q) := by
  refine .of_step .main hfair henabled fun m event m' hm hstep => ?_
  rcases hm.step hstep with ⟨hother, hm'⟩ | ⟨-, next, hfollow, hm'⟩
  · exact .inr ⟨hm', hother⟩
  · exact .inl (hnext next hfollow ▸ hm')

theorem enabled_initializing (h : At n .initializing m) : Enabled (Step n) thread .main m := by
  obtain ⟨place, system⟩ := m
  obtain rfl : place = .initializing := h.place
  rcases h.reached.underway with ⟨-, hinitial⟩ | ⟨hplace, -⟩
  · obtain rfl : system = .initial Robot.initial := hinitial
    have hstep : (Restartable.initial Robot.initial : Restartable R Unit).Step
        (.program (.operate (initialization R))) _ := .program rfl (.operate _ rfl)
    exact ⟨_, _, rfl, .prepare hstep⟩
  · exact absurd rfl hplace

/-- The first step of a call is in the way of nobody. -/
theorem exists_entry (h : At n (.calling call) m) :
    ∃ s', m.system.Step (call.entry n) s' := by
  have hreturned : call.HasReturned m.system := by
    refine h.reached.free call fun other hplace => ?_
    rw [h.place] at hplace
    cases hplace
  cases call with
  | start | stop =>
      have houtside : m.system.communication.callers () = .outside := hreturned
      exact ⟨_, .call rfl ⟨if_pos houtside, m.system.communication.separate_of_subsingleton _⟩⟩
  | run =>
      have houtside : m.system.controller.loop.callers () = .outside := hreturned
      exact ⟨_, .program rfl (.lifecycle rfl (if_pos ⟨houtside, rfl⟩))⟩
  | state =>
      obtain ⟨event, controller, hbegins, hstep⟩ :=
        Controller.exists_begin (.stateCall ()) h.reached.controller hreturned
      obtain rfl : event = .lockState () := by
        cases event <;> first | rfl | cases hbegins
      exact ⟨_, .program rfl hstep⟩

theorem enabled_calling (h : At n (.calling call) m) : Enabled (Step n) thread .main m := by
  obtain ⟨place, system⟩ := m
  obtain ⟨system', hstep⟩ := exists_entry h
  obtain rfl : place = .calling call := h.place
  exact ⟨_, _, thread_entry call, .enter hstep⟩

/-- `main` goes into the call. -/
theorem leadsTo_within (hfair : run.Fair thread) (call : MainCall) :
    run.LeadsTo (At n (.calling call)) (At n (.within call)) :=
  leadsTo_next hfair (fun _ => id) fun _ => enabled_calling

theorem enabled_within (h : At n (.within call) m) (hcontinues : call.continues visible = true)
    (hstep : m.system.Step visible s') : Enabled (Step n) thread .main m := by
  obtain ⟨place, system⟩ := m
  obtain rfl : place = .within call := h.place
  exact ⟨_, _, thread_of_continues hcontinues, .within hcontinues hstep⟩

theorem enabled_leave (h : At n (.within call) m) (hreturned : call.HasReturned m.system) :
    Enabled (Step n) thread .main m := by
  obtain ⟨place, system⟩ := m
  obtain rfl : place = .within call := h.place
  exact ⟨_, _, rfl, .leave hreturned⟩

/-- Within a call the steps of `main` are those of the call. -/
theorem own_within (h : At n (.within call) m) (hstep : Step n m event m')
    (hown : thread event = .main) :
    call.HasReturned m.system ∧ At n call.next m' ∨
      ∃ visible, event = some visible ∧ call.continues visible = true ∧
        m.system.Step visible m'.system ∧ At n (.within call) m' := by
  have hm' := h.reached.step hstep
  have hplace := h.place
  cases hstep with
  | background hback _ => exact absurd hown (thread_of_background hback)
  | within hcontinues hstep =>
      obtain rfl := MainPlace.within.inj hplace
      exact .inr ⟨_, rfl, hcontinues, hstep, hm', rfl⟩
  | leave hreturned =>
      obtain rfl := MainPlace.within.inj hplace
      exact .inl ⟨hreturned, hm', rfl⟩
  | _ => cases hplace

/-- The steps of the other threads are those of the system. -/
theorem other_of_step (hstep : Step n m event m') (hother : thread event ≠ .main) :
    ∃ visible, event = some visible ∧ visible.isBackground = true ∧
      m.system.Step visible m'.system := by
  cases hstep with
  | background hback hstep => exact ⟨_, rfl, hback, hstep⟩
  | prepare _ | transmit _ _ | leave _ | poll _ | polled _ => exact absurd rfl hother
  | enter _ => exact absurd (thread_entry _) hother
  | within hcontinues _ => exact absurd (thread_of_continues hcontinues) hother

end Next

/-! ## The calls of `start` and `stop` -/

section Communicating

variable {call : MainCall} {k i d : Nat} {run : Run (Step (R := R) n)}

omit [Double R] [IntConversion R] in
theorem returned_iff (hcall : call.interferes .start = true) :
    call.HasReturned s ↔ s.communication.callers () = .outside := by
  cases call <;> first | exact Iff.rfl | cases hcall

theorem left_of_proceed {t : Unit} (hstep : s.Step (.call (.proceed t)) s') :
    (s'.communication.callers ()).left < (s.communication.callers ()).left := by
  cases hstep with
  | call _ hseparate =>
      obtain ⟨members, stage, hadvances, rfl⟩ := CommunicationLifecycle.proceed_cases hseparate.1
      have hcaller : Function.update s.communication.callers t stage t = stage :=
        Function.update_self ..
      change (Function.update s.communication.callers t stage t).left <
        (s.communication.callers t).left
      rw [hcaller]
      exact hadvances.left_lt

theorem not_waiting_of_proceed {t : Unit} (hstep : s.Step (.call (.proceed t)) s') :
    ¬ s.communication.Waiting () := by
  rintro ⟨-, hnone⟩
  cases hstep with
  | call _ hseparate => cases hnone.symm.trans hseparate.1

/-- `main` is within `start` or `stop` and has so many accesses left. -/
structure Left (n : Int) (call : MainCall) (k : Nat) (m : MainProgram R) : Prop where
  within : At n (.within call) m
  left : (m.system.communication.callers ()).left = k

/-- The other threads leave the call where it is. -/
theorem Left.other (h : Left n call k m) (hstep : Step n m event m')
    (hother : thread event ≠ .main) :
    Left n call k m' ∧
      m'.system.communication.callers = m.system.communication.callers ∧
      ∀ i, m'.system.communication.members.Live i → m.system.communication.members.Live i := by
  obtain ⟨visible, rfl, hback, hsystem⟩ := other_of_step hstep hother
  have hcall : ∀ access, visible ≠ .call access := by
    rintro access rfl
    cases hback
  have hcallers := (communication_of_step hsystem hcall).2
  have hleft := (congrArg CallStage.left (congrFun hcallers ())).trans h.left
  exact ⟨⟨h.within.other hstep hother, hleft⟩, hcallers,
    fun i => Restartable.live_of_step hsystem hcall⟩

/-- Nobody makes `main` wait. -/
theorem Left.not_waiting (h : Left n call k m)
    (hwaiting : ¬ m.system.communication.Waiting ()) (hstep : Step n m event m')
    (hother : thread event ≠ .main) : ¬ m'.system.communication.Waiting () := by
  obtain ⟨h', hcallers, hlive⟩ := h.other hstep hother
  intro hwaiting'
  obtain ⟨i, hawaited, hlive', -⟩ :=
    h'.within.reached.aligned.separate.consistent.ending hwaiting'
  rw [hcallers] at hawaited
  exact hwaiting (CommunicationLifecycle.waiting_of_live hawaited (hlive i hlive'))

/-- A step of `main` leaves the call or is its next access. -/
theorem Left.own (h : Left n call k m) (hcall : call.interferes .start = true)
    (hstep : Step n m event m') (hmain : thread event = .main) :
    ¬ m.system.communication.Waiting () ∧
      (At n call.next m' ∨ ∃ k' < k, Left n call k' m') := by
  rcases own_within h.within hstep hmain with
    ⟨hreturned, hnext⟩ | ⟨visible, rfl, hcontinues, hown, hm'⟩
  · exact ⟨fun hwaiting => hwaiting.1 ((returned_iff hcall).mp hreturned), .inl hnext⟩
  · rcases MainCall.continues_cases hcontinues with ⟨-, t, rfl⟩ | ⟨rfl, -⟩ | ⟨rfl, -⟩
    · exact ⟨not_waiting_of_proceed hown,
        .inr ⟨_, h.left ▸ left_of_proceed hown, hm', rfl⟩⟩
    · cases hcall
    · cases hcall

/-- `main` makes the next access if it need not wait. -/
theorem leadsTo_access (hfair : run.Fair thread) (hcall : call.interferes .start = true) :
    run.LeadsTo (fun m => Left n call k m ∧ ¬ m.system.communication.Waiting ()) fun m =>
      At n call.next m ∨ ∃ k' < k, Left n call k' m := by
  refine .of_step .main hfair ?_ fun m event m' ⟨h, hwaiting⟩ hstep => ?_
  · rintro m ⟨h, hwaiting⟩
    by_cases houtside : m.system.communication.callers () = .outside
    · exact enabled_leave h.within ((returned_iff hcall).mpr houtside)
    · obtain ⟨communication, hproceed⟩ :=
        Option.ne_none_iff_exists'.mp fun hnone => hwaiting ⟨houtside, hnone⟩
      have hcontinues : call.continues (.call (.proceed ()) : RestartableEvent R Unit) = true := by
        cases call <;> first | rfl | cases hcall
      exact enabled_within h.within hcontinues
        (.call rfl ⟨hproceed, m.system.communication.separate_of_subsingleton _⟩)
  · by_cases hmain : thread event = .main
    · exact .inl (h.own hcall hstep hmain).2
    · exact .inr ⟨⟨(h.other hstep hmain).1, h.not_waiting hwaiting hstep hmain⟩, hmain⟩

/-- `main` is within `start` or `stop` and waits for a worker, which needs no more than so
many steps. -/
structure Awaits (n : Int) (call : MainCall) (k i d : Nat) (m : MainProgram R) : Prop where
  left : Left n call k m
  awaited : (m.system.communication.callers ()).awaited = some i
  live : m.system.communication.members.Live i
  ending : CommunicationLifecycle.Ending () i m.system.communication
  due : Restartable.EndDue i m.system d

theorem Left.awaits (h : Left n call k m) (hwaiting : m.system.communication.Waiting ()) :
    ∃ i d, Awaits n call k i d m := by
  have hm := h.within.reached
  obtain ⟨i, hawaited, hlive, hending⟩ := hm.aligned.separate.consistent.ending hwaiting
  obtain ⟨d, hdue, -⟩ := Restartable.exists_endDue hm.controller i
  exact ⟨i, d, h, hawaited, hlive, hending, hdue⟩

omit [Double R] [IntConversion R] in
theorem isBy_of_thread (h : thread (some visible) = .communication) :
    ∃ j, visible.isBy j = true := by
  cases visible with
  | program step => cases hmain : isMain step <;> simp [thread, hmain] at h
  | call access => cases h
  | loop j | published j | iterate j _ => exact ⟨j, by simp [RestartableEvent.isBy]⟩

/-- Every step of the worker brings it closer to its end. -/
theorem Awaits.step (h : Awaits n call k i d m) (hcall : call.interferes .start = true)
    (hstep : Step n m event m') :
    (Left n call k m' ∧ ¬ m'.system.communication.Waiting ()) ∨
      ∃ d', Awaits n call k i d' m' ∧ d' ≤ d ∧ (thread event = .communication → d' < d) := by
  have hother : thread event ≠ .main := fun hmain =>
    (h.left.own hcall hstep hmain).1 (CommunicationLifecycle.waiting_of_live h.awaited h.live)
  obtain ⟨hleft, hcallers, -⟩ := h.left.other hstep hother
  obtain ⟨visible, rfl, -, hsystem⟩ := other_of_step hstep hother
  have haligned := h.left.within.reached.aligned
  obtain ⟨d', hdue, hle⟩ := h.due.step haligned h.ending hsystem
  by_cases hlive : m'.system.communication.members.Live i
  · have hawaited := (congrArg CallStage.awaited (congrFun hcallers ())).trans h.awaited
    refine .inr ⟨d', ⟨hleft, hawaited, hlive, Restartable.ending_of_step h.ending hsystem, hdue⟩,
      (Nat.le_add_right _ _).trans hle, fun hthread => ?_⟩
    -- the worker that is alive is the one that is waited for
    obtain ⟨j, hby⟩ := isBy_of_thread hthread
    obtain rfl := haligned.separate.consistent.unique h.live
      (Restartable.live_of_isBy hsystem hby)
    rwa [if_pos hby] at hle
  · refine .inl ⟨hleft, fun hwaiting => ?_⟩
    obtain ⟨j, hawaited, hlive', -⟩ :=
      hleft.within.reached.aligned.separate.consistent.ending hwaiting
    rw [hcallers, h.awaited] at hawaited
    obtain rfl := Option.some.inj hawaited
    exact hlive hlive'

end Communicating

/-! ## The cycles -/

section Looping

variable {k : Nat} {run : Run (Step (R := R) n)} {taken : ControllerEvent R Unit}

/-- Whether an event is one that `LoopDue` counts. -/
def isLoopStep (event : Option (RestartableEvent R Unit)) : Bool :=
  (event.bind RestartableEvent.event).any ControllerEvent.isLoopStep

theorem loopDue_of_step (hm : m.Reached n) (hdue : m.system.controller.LoopDue k)
    (hstep : Step n m event m') (hplace : m.place ≠ .calling .run) :
    ∃ k', m'.system.controller.LoopDue k' ∧
      k' + (if isLoopStep event = true then 1 else 0) ≤ k := by
  rcases system_of_step hstep with ⟨rfl, hsame⟩ | ⟨visible, rfl, hsystem⟩
  · exact ⟨k, hsame ▸ hdue, le_rfl⟩
  · rcases cases_of_step hm.aligned hsystem with ⟨hnone, hsame⟩ | ⟨taken, htaken, hstep'⟩
    · exact ⟨k, hsame ▸ hdue, by simp [isLoopStep, hnone]⟩
    · have hcall : taken.isLoopCall = false := by
        cases taken with
        | lifecycle access =>
            rcases access_of_step hstep rfl htaken with
              ⟨i, rfl⟩ | ⟨hcalling, -⟩ | ⟨t, rfl | rfl | rfl⟩
            · rfl
            · exact absurd hcalling hplace
            · rfl
            · rfl
            · rfl
        | _ => rfl
      obtain ⟨k', hdue', hle⟩ := hdue.step hstep' hcall
      exact ⟨k', hdue', by simpa [isLoopStep, htaken] using hle⟩

omit [Double R] [IntConversion R] in
theorem isLoopStep_of_continues (h : MainCall.run.continues visible = true) :
    isLoopStep (some visible) = true := by
  rcases MainCall.continues_cases h with ⟨hcall | hcall, -⟩ | ⟨-, access, -, rfl⟩ | ⟨hcall, -⟩
  · cases hcall
  · cases hcall
  · cases access <;> first | rfl | cases h
  · cases hcall

omit [Double R] [IntConversion R] in
theorem isWork_of_not_isMain (hmain : isMain taken = false) (hstage : taken.stage = none) :
    taken.isWork = true := by
  cases taken with
  | lifecycle access => cases access <;> first | rfl | cases hmain
  | receive | writeCommand | sample | accessState | transmit => cases hstage
  | _ => first | rfl | cases hmain

theorem stage_of_program (hstep : s.Step (.program taken) s') : taken.stage = none := by
  cases hstep with
  | program hstage _ => exact hstage

theorem isLoopStep_of_worker (hstep : Step n m event m') (hthread : thread event = .worker) :
    isLoopStep event = true := by
  obtain ⟨visible, rfl, hback, hsystem⟩ := other_of_step hstep (by simp [hthread])
  cases visible with
  | program taken =>
      rw [isBackground_program, Bool.not_eq_true'] at hback
      exact ControllerEvent.isLoopStep_of_isWork
        (isWork_of_not_isMain hback (stage_of_program hsystem))
  | _ => cases hthread

/-- The call of `run` returns. -/
theorem leadsTo_polling (hfair : run.Fair thread) (hn : 0 < n) :
    run.LeadsTo (At n (.within .run)) (At n .polling) := by
  have hcount : run.LeadsTo
      (fun m => ∃ k, At n (.within .run) m ∧ m.system.controller.LoopDue k) (At n .polling) := by
    refine .of_countdown .main hfair ?_ ?_
    · rintro m k ⟨h, -⟩
      by_cases houtside : m.system.controller.loop.callers () = .outside
      · exact enabled_leave h houtside
      · obtain ⟨access, loop, haccess, hloop⟩ :=
          (h.reached.accepted hn).exists_call_step h.reached.controller.lifecycle houtside
        have hends : endsUpdate m.system.controller.loop access = false := by
          rcases haccess with rfl | rfl | rfl <;> rfl
        have hcontinues : MainCall.run.continues
            (.program (.lifecycle access) : RestartableEvent R Unit) = true := by
          rcases haccess with rfl | rfl | rfl <;> rfl
        exact enabled_within h hcontinues (.program rfl (.lifecycle hends hloop))
    · rintro m k event m' ⟨h, hdue⟩ hstep
      obtain ⟨k', hdue', hle⟩ := loopDue_of_step h.reached hdue hstep (by simp [h.place])
      by_cases hmain : thread event = .main
      · rcases own_within h hstep hmain with ⟨-, hnext⟩ | ⟨visible, rfl, hcontinues, -, h'⟩
        · exact .inl hnext
        · rw [if_pos (isLoopStep_of_continues hcontinues)] at hle
          exact .inr ⟨k', ⟨h', hdue'⟩, by omega, fun _ => hle⟩
      · exact .inr ⟨k', ⟨h.other hstep hmain, hdue'⟩, (Nat.le_add_right _ _).trans hle,
          fun hown => absurd hown hmain⟩
  intro j hj
  obtain ⟨k, hdue⟩ := hj.reached.controller.exists_loopDue
  exact hcount j ⟨k, hj, hdue⟩

/-- While a cycle is under way it can be counted. -/
theorem Reached.room (h : m.Reached n) (hn : 0 < n) (hmax : n ≤ intMax)
    (hopen : m.system.controller.cycle ≠ .outside) :
    m.system.controller.loop.members.measuredCycles + 1 < 2 ^ 31 := by
  have hc := h.controller
  have hkept := (h.accepted hn).kept
  have hruns : List.Sublist m.system.controller.loop.acceptedRuns [n] := by
    refine List.Sublist.trans ?_ (hkept ▸ sublist_requested n m.place)
    exact (List.sublist_append_left _ _).trans (List.sublist_append_left _ _)
  have haccepted : m.system.controller.loop.members.acceptedCycles ≤ n := by
    rw [← Lifecycle.sum_acceptedRuns]
    rcases List.sublist_singleton.mp hruns with hnone | hone
    · simp [hnone, hn.le]
    · simp [hone]
  have hfewer : (m.system.controller.loop.members.measuredCycles : Int) <
      m.system.controller.loop.members.acceptedCycles := by
    by_contra hall
    obtain ⟨i, hupdating⟩ := hc.coordinated.updating hopen
    rw [hc.lifecycle.not_updating (not_lt.mp hall) i] at hupdating
    cases hupdating
  simp only [intMax] at hmax
  omega

theorem enabled_worker (h : m.Reached n) (hn : 0 < n) (hmax : n ≤ intMax) {w : Worker}
    (hw : w ∈ m.system.controller.loop.members.workers) (hlive : w.stage ≠ .ended) :
    Enabled (Step n) thread .worker m := by
  obtain ⟨i, hi⟩ := List.mem_iff_getElem?.mp hw
  obtain ⟨taken, controller, hwork, hstep⟩ :=
    Controller.exists_isWork h.controller hi hlive (h.room hn hmax)
  have hmain : isMain taken = false := by
    cases taken with
    | lifecycle access => cases access <;> first | rfl | cases hwork
    | _ => first | rfl | cases hwork
  have hstage : taken.stage = none := by
    cases taken <;> first | rfl | cases hwork
  obtain ⟨place, system⟩ := m
  refine ⟨some (.program taken), ⟨place, { system with controller := controller }⟩, ?_,
    .background ?_ (.program hstage hstep)⟩
  · simp [thread, hmain]
  · simp [isBackground_program, hmain]

/-- At the poll the run has been accepted, and its worker is there until its cycles have been
counted. -/
theorem exists_worker (h : At n .polling m) (hn : 0 < n)
    (hpoll : m.system.controller.loop.completedCycles < n) :
    ∃ w ∈ m.system.controller.loop.members.workers, w.stage ≠ .ended := by
  have hc := h.reached.controller
  have haccepted := h.reached.accepted hn
  rw [h.place] at haccepted
  have houtside : m.system.controller.loop.callers () = .outside :=
    h.reached.free .run fun other hplace => by
      rw [h.place] at hplace
      cases hplace
  obtain ⟨w, hworkers, hcount⟩ :=
    List.map_eq_singleton_iff.mp (haccepted.acceptedRuns hc.lifecycle houtside)
  refine ⟨w, by simp [hworkers], fun hended => ?_⟩
  have hexecuted := haccepted.executed_eq hc.lifecycle (i := 0) (by simp [hworkers]) hended
  have htotal := hc.lifecycle.executedCycles_eq
  simp only [Members.executedCycles, hworkers, List.map_cons, List.map_nil, List.sum_cons,
    List.sum_nil] at htotal
  rw [hc.completedCycles_eq] at hpoll
  omega

/-- What the poll finds. -/
theorem own_polling (h : At n .polling m) (hstep : Step n m event m')
    (hmain : thread event = .main) :
    m.system.controller.loop.completedCycles < n ∧ At n .polling m' ∨
      n ≤ m.system.controller.loop.completedCycles ∧ At n (.calling .stop) m' := by
  have hm' := h.reached.step hstep
  have hplace := h.place
  cases hstep with
  | background hback _ => exact absurd hmain (thread_of_background hback)
  | poll hfewer => exact .inl ⟨hfewer, hm', rfl⟩
  | polled hall => exact .inr ⟨hall, hm', rfl⟩
  | _ => cases hplace

theorem completedCycles_le (hm : m.Reached n) (hstep : Step n m event m') :
    m.system.controller.loop.completedCycles ≤ m'.system.controller.loop.completedCycles := by
  have hm' : m'.Reached n := hm.step hstep
  rw [hm.controller.completedCycles_eq, hm'.controller.completedCycles_eq]
  rcases system_of_step hstep with ⟨-, hsame⟩ | ⟨visible, -, hsystem⟩
  · rw [hsame]
  · rcases cases_of_step hm.aligned hsystem with ⟨-, hsame⟩ | ⟨taken, -, hstep'⟩
    · rw [hsame]
    · rw [Controller.measured_of_step hstep']
      exact_mod_cast Nat.le_add_right _ _

/-- The cycles are counted. -/
theorem leadsTo_counted (hfair : run.Fair thread) (hn : 0 < n) (hmax : n ≤ intMax) :
    run.LeadsTo (At n .polling) fun m =>
      At n .polling m ∧ n ≤ m.system.controller.loop.completedCycles := by
  have hcount : run.LeadsTo
      (fun m => ∃ k, (At n .polling m ∧ m.system.controller.loop.completedCycles < n) ∧
        m.system.controller.LoopDue k)
      fun m => At n .polling m ∧ n ≤ m.system.controller.loop.completedCycles := by
    refine .of_countdown .worker hfair ?_ ?_
    · rintro m k ⟨⟨h, hpoll⟩, -⟩
      obtain ⟨w, hw, hlive⟩ := exists_worker h hn hpoll
      exact enabled_worker h.reached hn hmax hw hlive
    · rintro m k event m' ⟨⟨h, hpoll⟩, hdue⟩ hstep
      obtain ⟨k', hdue', hle⟩ := loopDue_of_step h.reached hdue hstep (by simp [h.place])
      have h' : At n .polling m' := by
        rcases h.step hstep with ⟨-, h'⟩ | ⟨hmain, -⟩
        · exact h'
        · rcases own_polling h hstep hmain with ⟨-, h'⟩ | ⟨hall, -⟩
          · exact h'
          · exact absurd hall (not_le.mpr hpoll)
      rcases le_or_gt n m'.system.controller.loop.completedCycles with hall | hpoll'
      · exact .inl ⟨h', hall⟩
      · refine .inr ⟨k', ⟨⟨h', hpoll'⟩, hdue'⟩, (Nat.le_add_right _ _).trans hle, fun hworker => ?_⟩
        rwa [if_pos (isLoopStep_of_worker hstep hworker)] at hle
  intro j hj
  rcases le_or_gt n (run.state j).system.controller.loop.completedCycles with hall | hpoll
  · exact ⟨j, le_rfl, hj, hall⟩
  · obtain ⟨k, hdue⟩ := hj.reached.controller.exists_loopDue
    exact hcount j ⟨k, ⟨hj, hpoll⟩, hdue⟩

/-- The poll ends. -/
theorem leadsTo_stopping (hfair : run.Fair thread) (hn : 0 < n) (hmax : n ≤ intMax) :
    run.LeadsTo (At n .polling) (At n (.calling .stop)) := by
  refine (leadsTo_counted hfair hn hmax).trans (.of_step .main hfair ?_ ?_)
  · rintro ⟨place, system⟩ ⟨h, hall⟩
    obtain rfl : place = .polling := h.place
    exact ⟨none, _, rfl, .polled hall⟩
  · rintro m event m' ⟨h, hall⟩ hstep
    by_cases hmain : thread event = .main
    · rcases own_polling h hstep hmain with ⟨hpoll, -⟩ | ⟨-, h'⟩
      · exact absurd hall (not_le.mpr hpoll)
      · exact .inl h'
    · have hall' := hall.trans (completedCycles_le h.reached hstep)
      exact .inr ⟨⟨h.other hstep hmain, hall'⟩, hmain⟩

end Looping

/-! ## The call of `state` -/

section Stating

variable {k : Nat} {run : Run (Step (R := R) n)} {taken : ControllerEvent R Unit}

/-- No step but the next of the call itself changes what is left of it. -/
theorem stateCallDue_of_other (h : At n (.within .state) m)
    (hdue : m.system.controller.StateCallDue () k) (hstep : Step n m event m')
    (hother : thread event ≠ .main) : ∃ k' ≤ k, m'.system.controller.StateCallDue () k' := by
  obtain ⟨visible, rfl, hback, hsystem⟩ := other_of_step hstep hother
  rcases cases_of_step h.reached.aligned hsystem with ⟨-, hsame⟩ | ⟨taken, htaken, hstep'⟩
  · exact ⟨k, le_rfl, hsame ▸ hdue⟩
  · have hmain := isMain_of_background hsystem hback htaken
    obtain ⟨k', hdue', hle⟩ := Controller.amortizes_stateCall () _ _ _ k hdue hstep'
    have hbrings : (Passage.stateCall ()).brings taken = 0 := by
      cases taken <;> first | rfl | cases hmain
    exact ⟨k', by omega, hdue'⟩

theorem stateCallDue_of_own (haligned : s.Aligned) (hdue : s.controller.StateCallDue () k)
    (hstep : s.Step visible s') (hcontinues : MainCall.state.continues visible = true) :
    ∃ k' < k, s'.controller.StateCallDue () k' := by
  rcases MainCall.continues_cases hcontinues with ⟨hcall | hcall, -⟩ | ⟨hcall, -⟩ | ⟨-, t, hvisible⟩
  · cases hcall
  · cases hcall
  · cases hcall
  · rcases cases_of_step haligned hstep with ⟨hnone, -⟩ | ⟨taken, htaken, hstep'⟩
    · rcases hvisible with rfl | rfl <;> cases hnone
    · have hspends : (Passage.stateCall ()).spends taken = 1 ∧
          (Passage.stateCall ()).brings taken = 0 := by
        rcases hvisible with rfl | rfl <;>
        · obtain rfl := Option.some.inj htaken
          exact ⟨rfl, rfl⟩
      obtain ⟨k', hdue', hle⟩ := Controller.amortizes_stateCall () _ _ _ k hdue hstep'
      exact ⟨k', by omega, hdue'⟩

/-- The call of `state` returns. -/
theorem leadsTo_returned (hfair : run.Fair thread) :
    run.LeadsTo (At n (.within .state)) (At n .returned) := by
  have hcount : run.LeadsTo
      (fun m => ∃ k, At n (.within .state) m ∧ m.system.controller.StateCallDue () k)
      (At n .returned) := by
    refine .of_countdown .main hfair ?_ ?_
    · rintro m k ⟨h, -⟩
      cases hmutex : m.system.controller.stateMutex with
      | none => exact enabled_leave h hmutex
      | some t =>
          obtain ⟨taken, controller, hcontinues, hstep⟩ :=
            Controller.exists_continue_stateCall h.reached.controller hmutex
          have hstage : taken.stage = none := by
            cases taken <;> first | rfl | cases hcontinues
          have hown : MainCall.state.continues
              (.program taken : RestartableEvent R Unit) = true := by
            cases taken <;> first | rfl | cases hcontinues
          exact enabled_within h hown (.program hstage hstep)
    · rintro m k event m' ⟨h, hdue⟩ hstep
      by_cases hmain : thread event = .main
      · rcases own_within h hstep hmain with ⟨-, hnext⟩ | ⟨visible, rfl, hcontinues, hown, h'⟩
        · exact .inl hnext
        · obtain ⟨k', hlower, hdue'⟩ :=
            stateCallDue_of_own h.reached.aligned hdue hown hcontinues
          exact .inr ⟨k', ⟨h', hdue'⟩, hlower.le, fun _ => hlower⟩
      · obtain ⟨k', hle, hdue'⟩ := stateCallDue_of_other h hdue hstep hmain
        exact .inr ⟨k', ⟨h.other hstep hmain, hdue'⟩, hle, fun hown => absurd hown hmain⟩
  intro j hj
  obtain ⟨k, hdue, -⟩ := hj.reached.controller.exists_due_le (.stateCall ())
  exact hcount j ⟨k, hj, hdue⟩

end Stating

/-! ## The end -/

section End

variable {run : Run (Step (R := R) n)} {c c' : Controller R Unit} {taken : ControllerEvent R Unit}

/-- `main` has returned and the other threads have ended. -/
structure Ended (m : MainProgram R) : Prop where
  place : m.place = .returned
  worker : ∀ w ∈ m.system.controller.loop.members.workers, w.stage = .ended
  communication : ∀ i, ¬ m.system.communication.members.Live i

/-- The worker of the loop ends. -/
theorem leadsTo_ended (hfair : run.Fair thread) (hn : 0 < n) (hmax : n ≤ intMax) :
    run.LeadsTo (At n .returned) fun m => m.Reached n ∧ m.Ended := by
  have hdone : ∀ m : MainProgram R, At n .returned m →
      (¬ ∃ w ∈ m.system.controller.loop.members.workers, w.stage ≠ .ended) →
        m.Reached n ∧ m.Ended := fun m h hnone =>
    ⟨h.reached, h.place, fun w hw => by_contra fun hlive => hnone ⟨w, hw, hlive⟩,
      h.reached.not_live (by rw [h.place]; rfl)⟩
  have hcount : run.LeadsTo
      (fun m => ∃ k, (At n .returned m ∧
        ∃ w ∈ m.system.controller.loop.members.workers, w.stage ≠ .ended) ∧
          m.system.controller.LoopDue k)
      fun m => m.Reached n ∧ m.Ended := by
    refine .of_countdown .worker hfair ?_ ?_
    · rintro m k ⟨⟨h, w, hw, hlive⟩, -⟩
      exact enabled_worker h.reached hn hmax hw hlive
    · rintro m k event m' ⟨⟨h, -⟩, hdue⟩ hstep
      obtain ⟨k', hdue', hle⟩ := loopDue_of_step h.reached hdue hstep (by simp [h.place])
      have h' : At n .returned m' := by
        rcases h.step hstep with ⟨-, h'⟩ | ⟨-, next, hfollow, -⟩
        · exact h'
        · cases hfollow
      by_cases hlive : ∃ w ∈ m'.system.controller.loop.members.workers, w.stage ≠ .ended
      · refine .inr ⟨k', ⟨⟨h', hlive⟩, hdue'⟩, (Nat.le_add_right _ _).trans hle, fun hworker => ?_⟩
        rwa [if_pos (isLoopStep_of_worker hstep hworker)] at hle
      · exact .inl (hdone m' h' hlive)
  intro j hj
  by_cases hlive : ∃ w ∈ (run.state j).system.controller.loop.members.workers, w.stage ≠ .ended
  · obtain ⟨k, hdue⟩ := hj.reached.controller.exists_loopDue
    exact hcount j ⟨k, ⟨hj, hlive⟩, hdue⟩
  · exact ⟨j, le_rfl, hdone _ hj hlive⟩

/-- A worker that takes a step has not ended. -/
theorem exists_live_of_isWork (hc : c.Reached) (hstep : c.Step taken c')
    (hwork : taken.isWork = true) : ∃ w ∈ c.loop.members.workers, w.stage ≠ .ended := by
  have hworks : ∀ {i : Nat} {loop : Lifecycle Unit}, Lifecycle.Step c.loop (.work i) loop →
      ∃ w ∈ c.loop.members.workers, w.stage ≠ .ended := by
    intro i loop hloop
    obtain ⟨members, hmembers, -⟩ := Option.map_eq_some_iff.mp hloop
    obtain ⟨w, w', hw, hnext, -⟩ := Members.work_cases hmembers
    refine ⟨w, List.mem_of_getElem? hw, fun hended => ?_⟩
    simp [Worker.next, hended] at hnext
  have hupdating : ∀ {i : Nat}, c.loop.members.isUpdating i = true →
      ∃ w ∈ c.loop.members.workers, w.stage ≠ .ended := by
    intro i hupdating
    obtain ⟨loop, hloop⟩ := Controller.exists_work hupdating
    exact hworks hloop
  have hopen : c.cycle ≠ .outside → ∃ w ∈ c.loop.members.workers, w.stage ≠ .ended := by
    intro hopen
    obtain ⟨i, hi⟩ := hc.coordinated.updating hopen
    exact hupdating hi
  cases hstep with
  | @lifecycle access _ _ hloop =>
      cases access with
      | work i => exact hworks hloop
      | _ => cases hwork
  | beginCycle _ hi _ | endCycle _ _ hi _ _ => exact hupdating hi
  | accessCommand hphase _ | steer hphase _ _ | publishState hphase _ | writeState hphase _
  | publishSnapshot hphase _ _ | writeSnapshot hphase _ => exact hopen (by simp [hphase])
  | _ => cases hwork

/-- Then nothing is left to do. -/
theorem Ended.stuck (h : m.Ended) (hm : m.Reached n) : ¬ Step n m event m' := by
  intro hstep
  rcases place_of_step hstep with ⟨hother, -⟩ | ⟨-, hfollow⟩
  · obtain ⟨visible, rfl, hback, hsystem⟩ := other_of_step hstep hother
    cases visible with
    | program taken =>
        rw [isBackground_program, Bool.not_eq_true'] at hback
        have hwork := isWork_of_not_isMain hback (stage_of_program hsystem)
        rcases cases_of_step hm.aligned hsystem with ⟨hnone, -⟩ | ⟨step, hevent, hstep'⟩
        · cases hnone
        · obtain rfl := Option.some.inj hevent
          obtain ⟨w, hw, hlive⟩ := exists_live_of_isWork hm.controller hstep' hwork
          exact hlive (h.worker w hw)
    | call access => cases hback
    | loop i | published i | iterate i _ =>
        exact h.communication i (Restartable.live_of_isBy hsystem (by simp [RestartableEvent.isBy]))
  · rw [h.place] at hfollow
    exact hfollow

end End

end Machine

section Exact

variable {K : Type} [Field K] [LinearOrder K] [IsStrictOrderedRing K] [FloorRing K] {n : Int}
  {m m' : MainProgram K} {call : MainCall} {k i d : Nat} {run : Run (Step (R := K) n)}

theorem Awaits.enabled (h : Awaits n call k i d m) :
    Enabled (Step n) thread .communication m := by
  have hm := h.left.within.reached
  obtain ⟨visible, s', hby, hstep⟩ :=
    Restartable.exists_step_of_live hm.fromNew hm.aligned hm.handed h.live
  obtain ⟨place, system⟩ := m
  refine ⟨some visible, ⟨place, s'⟩, ?_, .background ?_ hstep⟩
  · cases visible <;> first | rfl | cases hby
  · cases visible <;> first | rfl | cases hby

/-- Whom `main` waits for ends. -/
theorem leadsTo_not_waiting (hfair : run.Fair thread) (hcall : call.interferes .start = true) :
    run.LeadsTo (Left n call k) fun m =>
      Left n call k m ∧ ¬ m.system.communication.Waiting () := by
  have hends : ∀ i, run.LeadsTo (fun m => ∃ d, Awaits n call k i d m) fun m =>
      Left n call k m ∧ ¬ m.system.communication.Waiting () := fun i =>
    .of_countdown .communication hfair (fun _ _ h => h.enabled)
      fun _ _ _ _ h hstep => h.step hcall hstep
  intro j hj
  by_cases hwaiting : (run.state j).system.communication.Waiting ()
  · obtain ⟨i, d, hawaits⟩ := hj.awaits hwaiting
    exact hends i j ⟨d, hawaits⟩
  · exact ⟨j, le_rfl, hj, hwaiting⟩

/-- `start` and `stop` return. -/
theorem leadsTo_communicated (hfair : run.Fair thread) (hcall : call.interferes .start = true) :
    run.LeadsTo (At n (.within call)) (At n call.next) := by
  have hrank : run.LeadsTo (fun m => ∃ k, Left n call k m) (At n call.next) :=
    .of_rank fun k => (leadsTo_not_waiting hfair hcall).trans (leadsTo_access hfair hcall)
  exact fun j hj => hrank j ⟨_, hj, rfl⟩

/-- The command can be sent. -/
theorem leadsTo_transmitted (hfair : run.Fair thread) :
    run.LeadsTo (At n .transmitting) (At n (.calling .start)) := by
  refine leadsTo_next hfair (fun _ => id) ?_
  rintro ⟨place, system⟩ h
  obtain rfl : place = .transmitting := h.place
  have hninety : |(literal 90 : K)| ≤ (90 : Nat) := by
    norm_num [abs_le]
  obtain ⟨word, hword, -⟩ := toInt32_hundredths 90 hninety (by norm_num)
  exact ⟨_, _, rfl, .transmit (JointCommandCodec.encode_of_word hword)
    (.program rfl (.external (JointCommandCodec.commandFrame word)))⟩

/-- `main` returns.  In every run for some cycles that an `int` can count, that begins with
everything constructed and passes neither `main` nor the worker nor the communication thread
over for good, from some moment on `main` has returned and the other threads have ended.
Threads can be created here, `update` does not throw, and the waits of the scheduler and the
pauses come to an end.  After `main` has sent its command nobody but the communication thread
uses the bus, so that the mutex of the bus, which is left out, keeps nobody waiting. -/
theorem main_returns (hn : 0 < n) (hmax : n ≤ intMax) (run : Run (Step (R := K) n))
    (hfair : run.Fair thread) (hstart : run.state 0 = initial K) :
    ∃ i, ∀ j, i ≤ j → (run.state j).Ended := by
  have hinitial : At n .initializing (run.state 0) := by
    rw [hstart]
    exact ⟨.init rfl, rfl⟩
  have hcalled : run.LeadsTo (At n .initializing) (At n (.calling .run)) :=
    (leadsTo_next hfair (fun _ => id) fun _ => enabled_initializing).trans <|
      (leadsTo_transmitted hfair).trans <|
      (leadsTo_within hfair .start).trans (leadsTo_communicated hfair rfl)
  have hstopped : run.LeadsTo (At n (.calling .run)) (At n (.calling .state)) :=
    (leadsTo_within hfair .run).trans <| (leadsTo_polling hfair hn).trans <|
      (leadsTo_stopping hfair hn hmax).trans <|
      (leadsTo_within hfair .stop).trans (leadsTo_communicated hfair rfl)
  have hended : run.LeadsTo (At n (.calling .state)) fun m => m.Reached n ∧ m.Ended :=
    (leadsTo_within hfair .state).trans <| (leadsTo_returned hfair).trans <|
      leadsTo_ended hfair hn hmax
  have hreached : ∀ j, (run.state j).Reached n :=
    run.always (Reached n) hinitial.reached fun _ _ _ => Reachable.step
  obtain ⟨i, -, -, hi⟩ := (hcalled.trans (hstopped.trans hended)) 0 hinitial
  refine ⟨i, fun j hij => ?_⟩
  induction hij with
  | refl => exact hi
  | @step j _ ih =>
      rcases run.step_cases j with ⟨-, hsame⟩ | ⟨event, -, hstep⟩
      · exact hsame ▸ ih
      · exact absurd hstep (ih.stuck (hreached _))

end Exact

theorem main_returns_once :
    ∃ run : Run (Step (R := ℚ) 1), run.state 0 = initial ℚ ∧ run.Fair thread ∧
      ∃ i, ∀ j, i ≤ j → (run.state j).Ended := by
  obtain ⟨m, m', hreached, -, hlast, hreturned, hworkers⟩ := exists_returned
  have hreached' : m'.Reached 1 := hreached.advance hlast
  have hended : m'.Ended := by
    refine ⟨hreturned, fun w hw => ?_, hreached'.not_live (by rw [hreturned]; rfl)⟩
    have hstage := List.mem_map_of_mem (f := Worker.stage) hw
    rw [hworkers] at hstage
    exact List.mem_singleton.mp hstage
  obtain ⟨start, trace, rfl, hexec⟩ := hreached'
  obtain ⟨run, hstart, hfair⟩ :=
    Run.exists_fair hexec (fun _ _ => hended.stuck ⟨_, _, rfl, hexec⟩) thread
  exact ⟨run, hstart, hfair, main_returns (by decide) (by decide) run hfair hstart⟩

end MainProgram

end RobotController.System
