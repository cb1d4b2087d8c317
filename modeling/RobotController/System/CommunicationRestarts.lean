/-
  System/CommunicationRestarts.lean --- the program with its communication started and
  stopped.

  Source: `communication/CanCommunication.cpp` (`start`, `stop`, `run`).

  In `System/System.lean` one communication thread runs for good.  Here `start` and `stop`
  create and join the threads that do its work, each with its own place in its iteration.
  As long as an accepted `start` and a `stop` stay apart, the threads come one after the
  other, and each takes over between two iterations; so what is known of the one thread
  holds of them.
-/
import RobotController.Communication.CodecLaws
import RobotController.Communication.SingleWorker
import RobotController.Foundation.Stuttering
import RobotController.System.CommandConvergence
import RobotController.System.Progress

set_option autoImplicit false

namespace RobotController.System

open RobotController.Foundation RobotController.Core RobotController.Communication
open RobotController.Control RobotController.Synchronization

/-! ## The machine -/

/-- The program and the communication threads that have been created.  The `link` of the
program is set to the place of the thread that takes a step. -/
structure Restartable (R τ : Type) where
  controller : Controller R τ
  communication : CommunicationLifecycle τ
  places : Nat → LinkPhase

/-- What may happen. -/
inductive RestartableEvent (R τ : Type) where
  /-- a step of a thread that does not communicate -/
  | program (event : ControllerEvent R τ)
  /-- `start` and `stop`, and their accesses -/
  | call (event : CommunicationEvent τ)
  /-- worker `i` loads `running_`, or wakes up -/
  | loop (i : Nat)
  /-- `publish` returns to worker `i` -/
  | published (i : Nat)
  /-- a step of worker `i` within an iteration -/
  | iterate (i : Nat) (event : ControllerEvent R τ)

/-- The operation of `run` that a step of the communication thread is part of. -/
def ControllerEvent.stage {R τ : Type} : ControllerEvent R τ → Option RunStage
  | .receive => some .receiving
  | .writeCommand => some .publishing
  | .sample | .accessState | .transmit => some .transmitting
  | _ => none

theorem ControllerEvent.ne_ended_of_stage {R τ : Type} {event : ControllerEvent R τ}
    {stage : RunStage} (h : event.stage = some stage) : stage ≠ .ended := by
  rintro rfl
  cases event <;> cases h

/-- Whether it is the last step of the operation. -/
def ControllerEvent.endsStage {R τ : Type} : ControllerEvent R τ → Bool
  | .receive | .transmit => true
  | _ => false

/-- Whether an event is an access of a call. -/
def isCall {τ : Type} : CommunicationEvent τ → Bool
  | .work _ _ => false
  | _ => true

/-- The step of the program that an event is. -/
def RestartableEvent.event {R τ : Type} : RestartableEvent R τ → Option (ControllerEvent R τ)
  | .program event | .iterate _ event => some event
  | _ => none

namespace Restartable

variable {R τ : Type} [Double R]

def initial (robot : Robot R) : Restartable R τ where
  controller := .initial robot
  communication := .initial
  places := fun _ => .receiving

/-- The operation worker `i` is in. -/
def stage (s : Restartable R τ) (i : Nat) : Option RunStage :=
  s.communication.members.workers[i]?

/-- The program as worker `i` sees it. -/
def seenBy (s : Restartable R τ) (i : Nat) : Controller R τ :=
  { s.controller with link := s.places i }

/-- Worker `i` has taken a step. -/
def after (s : Restartable R τ) (i : Nat) (controller : Controller R τ)
    (communication : CommunicationLifecycle τ) : Restartable R τ where
  controller := controller
  communication := communication
  places := Function.update s.places i controller.link

omit [Double R] in
@[simp] theorem places_after_self (s : Restartable R τ) (i : Nat) (controller : Controller R τ)
    (communication : CommunicationLifecycle τ) :
    (s.after i controller communication).places i = controller.link := Function.update_self ..

omit [Double R] in
theorem places_after_of_ne (s : Restartable R τ) {i j : Nat} (h : j ≠ i)
    (controller : Controller R τ) (communication : CommunicationLifecycle τ) :
    (s.after i controller communication).places j = s.places j := Function.update_of_ne h ..

variable [IntConversion R] [DecidableEq τ]

/-- The steps of the program, with accepted starts and stops apart. -/
inductive Step : Restartable R τ → RestartableEvent R τ → Restartable R τ → Prop where
  | program {s : Restartable R τ} {event : ControllerEvent R τ} {controller : Controller R τ} :
      event.stage = none → Controller.Step s.controller event controller →
      Step s (.program event) { s with controller := controller }
  | call {s : Restartable R τ} {event : CommunicationEvent τ}
      {communication : CommunicationLifecycle τ} :
      isCall event = true →
      CommunicationLifecycle.SeparateStep s.communication event communication →
      Step s (.call event) { s with communication := communication }
  | loop {s : Restartable R τ} {i : Nat} {communication : CommunicationLifecycle τ} :
      s.stage i = some .checking ∨ s.stage i = some .sleeping →
      CommunicationLifecycle.Step s.communication (.work i false) communication →
      Step s (.loop i) { s with communication := communication }
  | published {s : Restartable R τ} {i : Nat} {communication : CommunicationLifecycle τ} :
      s.stage i = some .publishing → s.controller.commands.isIdle = true →
      CommunicationLifecycle.Step s.communication (.work i false) communication →
      Step s (.published i) { s with communication := communication }
  | within {s : Restartable R τ} {i : Nat} {event : ControllerEvent R τ} {before : RunStage}
      {controller : Controller R τ} :
      s.stage i = some before → event.stage = some before → event.endsStage = false →
      Controller.Step (s.seenBy i) event controller →
      Step s (.iterate i event) (s.after i controller s.communication)
  | complete {s : Restartable R τ} {i : Nat} {event : ControllerEvent R τ} {before : RunStage}
      {controller : Controller R τ} {communication : CommunicationLifecycle τ} :
      s.stage i = some before → event.stage = some before → event.endsStage = true →
      Controller.Step (s.seenBy i) event controller →
      CommunicationLifecycle.Step s.communication
        (.work i s.controller.receivedCommand.isSome) communication →
      Step s (.iterate i event) (s.after i controller communication)

/-! ## Places and operations -/

/-- The places that go with an operation of `run`; between two iterations, before the first
and after the last, there is only one. -/
def Fits : Option RunStage → LinkPhase → Prop
  | some .publishing, place => place = .publishing
  | some .transmitting, place => place ≠ .receiving
  | _, place => place = .receiving

section Places

variable {controller controller' : Controller R τ} {event : ControllerEvent R τ}
  {before after : RunStage} {running : Bool}

theorem link_of_step (hstep : Controller.Step controller event controller')
    (hevent : event.stage = none) : controller'.link = controller.link := by
  cases hstep with
  | receiveCommand _ _ _ | receiveOther _ _ | writeCommand _ _ | sample _ _ | accessState _ _
  | transmitState _ _ _ _ | transmitNothing _ _ _ => cases hevent
  | _ => rfl

/-- Within an operation. -/
theorem fits_of_within (hstep : Controller.Step controller event controller')
    (hevent : event.stage = some before) (hends : event.endsStage = false) :
    Fits (some before) controller'.link := by
  cases hstep with
  | writeCommand hlink _ =>
      obtain rfl := Option.some.inj hevent
      exact hlink
  | sample _ _ =>
      obtain rfl := Option.some.inj hevent
      simp [Fits]
  | accessState hlink _ =>
      obtain rfl := Option.some.inj hevent
      simp [Fits, hlink]
  | receiveCommand _ _ _ | receiveOther _ _ | transmitState _ _ _ _
  | transmitNothing _ _ _ => cases hends
  | _ => cases hevent

/-- At the end of an operation. -/
theorem fits_of_complete (hstep : Controller.Step controller event controller')
    (hevent : event.stage = some before) (hends : event.endsStage = true)
    (hnext : before.next running controller.receivedCommand.isSome = some after) :
    Fits (some after) controller'.link := by
  cases hstep with
  | receiveCommand _ hcommand _ =>
      obtain rfl := Option.some.inj hevent
      rw [hcommand] at hnext
      obtain rfl := Option.some.inj hnext
      rfl
  | receiveOther _ hcommand =>
      obtain rfl := Option.some.inj hevent
      rw [hcommand] at hnext
      obtain rfl := Option.some.inj hnext
      simp [Fits]
  | transmitState _ _ _ _ | transmitNothing _ _ _ =>
      obtain rfl := Option.some.inj hevent
      obtain rfl := Option.some.inj hnext
      rfl
  | _ => cases hends

/-- A thread that has been created has not begun an iteration. -/
theorem fits_create {workers : List RunStage} {places : Nat → LinkPhase}
    (h : ∀ j, Fits workers[j]? (places j)) (j : Nat) :
    Fits (workers ++ [.checking])[j]? (places j) := by
  have hplace := h j
  rcases Nat.lt_or_ge j workers.length with hlt | hge
  · rwa [List.getElem?_append_left hlt]
  · rw [List.getElem?_eq_none hge] at hplace
    rw [List.getElem?_append_right hge]
    cases hlast : j - workers.length <;> exact hplace

end Places

/-! ## One thread after another -/

/-- The program is where the thread that is alive is, and between two iterations when none
is. -/
structure Aligned (s : Restartable R τ) : Prop where
  separate : s.communication.ReachedSeparately
  places : ∀ i, Fits (s.stage i) (s.places i)
  alive : ∀ i, s.communication.members.Live i → s.controller.link = s.places i
  rest : (∀ i, ¬ s.communication.members.Live i) → s.controller.link = .receiving

omit [IntConversion R] in
theorem aligned_initial (robot : Robot R) : (initial robot : Restartable R τ).Aligned where
  separate := .init rfl
  places := fun _ => rfl
  alive := fun _ _ => rfl
  rest := fun _ => rfl

variable {s s' : Restartable R τ} {event : RestartableEvent R τ} {i : Nat}
  {controller : Controller R τ} {communication : CommunicationLifecycle τ}

omit [Double R] [IntConversion R] in
/-- Worker `i` sees the program as it is. -/
theorem Aligned.seenBy_eq (h : s.Aligned) (hlive : s.communication.members.Live i) :
    s.seenBy i = s.controller := by
  rw [seenBy, ← h.alive i hlive]

omit [Double R] [IntConversion R] in
/-- A worker has gone on within an operation. -/
theorem Aligned.within (h : s.Aligned) (hlive : s.communication.members.Live i)
    (hfits : Fits (s.stage i) controller.link) :
    (s.after i controller s.communication).Aligned where
  separate := h.separate
  places := by
    intro j
    rcases eq_or_ne j i with rfl | hne
    · rw [places_after_self]
      exact hfits
    · rw [places_after_of_ne s hne]
      exact h.places j
  alive := by
    intro j hj
    obtain rfl := h.separate.consistent.unique hj hlive
    exact (places_after_self ..).symm
  rest := fun hnone => absurd hlive (hnone i)

omit [Double R] [IntConversion R] in
/-- A worker has completed an operation. -/
theorem Aligned.work {decoded : Bool} (h : s.Aligned)
    (hwork : CommunicationLifecycle.Step s.communication (.work i decoded) communication)
    (hfits : ∀ before after, s.stage i = some before →
      before.next s.communication.members.running decoded = some after →
        Fits (some after) controller.link) :
    (s.after i controller communication).Aligned := by
  obtain ⟨members, hmembers, rfl⟩ := Option.map_eq_some_iff.mp hwork
  obtain ⟨before, after, hbefore, hnext, rfl⟩ := CommunicationMembers.work_cases hmembers
  have hlive : s.communication.members.Live i := ⟨before, hbefore, RunStage.ne_ended_of_next hnext⟩
  have hafter := hfits before after hbefore hnext
  have hset : (s.communication.members.workers.set i after)[i]? = some after :=
    List.getElem?_set_self (List.getElem?_eq_some_iff.mp hbefore).choose
  refine ⟨h.separate.step ⟨hwork, trivial⟩, fun j => ?_, fun j hj => ?_, fun hnone => ?_⟩
  · rcases eq_or_ne j i with rfl | hne
    · rw [places_after_self]
      simpa [Restartable.after, stage, hset] using hafter
    · rw [places_after_of_ne s hne]
      simpa [Restartable.after, stage, List.getElem?_set_ne hne.symm] using h.places j
  · obtain rfl := h.separate.consistent.unique (CommunicationMembers.live_work hmembers hj) hlive
    exact (places_after_self ..).symm
  · -- the worker that was alive has ended, and was between two iterations
    have hended : after = .ended := by
      by_contra hne
      exact hnone i ⟨after, hset, hne⟩
    rw [hended] at hafter
    exact hafter

omit [Double R] [IntConversion R] in
/-- A thread is created when none is alive. -/
theorem Aligned.call {event : CommunicationEvent τ} (h : s.Aligned) (hcall : isCall event = true)
    (hstep : CommunicationLifecycle.SeparateStep s.communication event communication) :
    Aligned { s with communication := communication } := by
  have hseparate : communication.ReachedSeparately := h.separate.step hstep
  cases event with
  | start t =>
      obtain ⟨-, rfl⟩ := CommunicationLifecycle.call_cases hstep.1
      exact { h with separate := hseparate }
  | stop t =>
      obtain ⟨-, rfl⟩ := CommunicationLifecycle.call_cases hstep.1
      exact { h with separate := hseparate }
  | proceed t =>
      obtain ⟨members, place, hadvances, rfl⟩ := CommunicationLifecycle.proceed_cases hstep.1
      generalize s.communication.callers t = before at hadvances
      cases hadvances with
      | create =>
          have hcreated : (s.communication.members.workers ++ [RunStage.checking])[
              s.communication.members.workers.length]? = some .checking :=
            List.getElem?_concat_length
          have hnone : ∀ j, ¬ s.communication.members.Live j := by
            rintro j ⟨place, hplace, hne⟩
            have hlt := (List.getElem?_eq_some_iff.mp hplace).choose
            have hsame := hseparate.consistent.unique
              ⟨place, (List.getElem?_append_left hlt).trans hplace, hne⟩
              ⟨.checking, hcreated, by simp⟩
            omega
          refine ⟨hseparate, fits_create h.places, fun j hj => ?_, fun hall => ?_⟩
          · rcases CommunicationMembers.live_create rfl hj with hold | rfl
            · exact absurd hold (hnone j)
            · have hnew := fits_create h.places s.communication.members.workers.length
              rw [hcreated] at hnew
              exact (h.rest hnone).trans hnew.symm
          · exact absurd ⟨.checking, hcreated, by simp⟩
              (hall s.communication.members.workers.length)
      | _ => exact { h with separate := hseparate }
  | work i decoded => cases hcall

omit [Double R] [IntConversion R] in
/-- Between two steps of iterations a worker stays where it is. -/
theorem Aligned.stay (h : s.Aligned) (hlive : s.communication.members.Live i)
    (hwork : CommunicationLifecycle.Step s.communication (.work i false) communication)
    (hfits : ∀ before after, s.stage i = some before →
      before.next s.communication.members.running false = some after →
        Fits (some after) (s.places i)) :
    Aligned { s with communication := communication } := by
  have hsame :
      s.after i s.controller communication = { s with communication := communication } := by
    rw [after, h.alive i hlive, Function.update_eq_self]
  rw [← hsame]
  exact h.work hwork fun before after hbefore hnext =>
    h.alive i hlive ▸ hfits before after hbefore hnext

/-- A step of a worker is a step of the one thread. -/
theorem Aligned.step (h : s.Aligned) (hstep : Step s event s') : s'.Aligned := by
  cases hstep with
  | program hevent hprogram =>
      have hlink := link_of_step hprogram hevent
      exact ⟨h.separate, h.places, fun i hi => hlink.trans (h.alive i hi),
        fun hnone => hlink.trans (h.rest hnone)⟩
  | call hcall hseparate => exact h.call hcall hseparate
  | @loop i _ hstage hwork =>
      have hplace := h.places i
      rcases hstage with hchecking | hsleeping
      · refine h.stay ⟨_, hchecking, by simp⟩ hwork fun before after hbefore hnext => ?_
        rw [hchecking] at hbefore hplace
        obtain rfl := Option.some.inj hbefore
        obtain rfl := Option.some.inj hnext
        split <;> exact hplace
      · refine h.stay ⟨_, hsleeping, by simp⟩ hwork fun before after hbefore hnext => ?_
        rw [hsleeping] at hbefore hplace
        obtain rfl := Option.some.inj hbefore
        obtain rfl := Option.some.inj hnext
        exact hplace
  | @published i _ hstage _ hwork =>
      have hplace := h.places i
      refine h.stay ⟨_, hstage, by simp⟩ hwork fun before after hbefore hnext => ?_
      rw [hstage] at hbefore hplace
      obtain rfl := Option.some.inj hbefore
      obtain rfl := Option.some.inj hnext
      change s.places i = .publishing at hplace
      simp [Fits, hplace]
  | within hstage hevent hends hprogram =>
      exact h.within ⟨_, hstage, ControllerEvent.ne_ended_of_stage hevent⟩
        (hstage ▸ fits_of_within hprogram hevent hends)
  | complete hstage hevent hends hprogram hwork =>
      refine h.work hwork fun before after hbefore hnext => ?_
      obtain rfl := Option.some.inj (hbefore.symm.trans hstage)
      rw [← h.seenBy_eq ⟨before, hbefore, ControllerEvent.ne_ended_of_stage hevent⟩] at hnext
      exact fits_of_complete hprogram hevent hends hnext

/-! ## Refinement -/

/-- The program with its communication restarted refines the program with one
communication thread: starting, stopping and waiting change nothing that it knows of. -/
theorem refines :
    Refines (Step (R := R) (τ := τ)) Controller.Step Aligned Restartable.controller
      RestartableEvent.event where
  keeps := fun _ _ _ h hstep => h.step hstep
  visible := by
    intro s event s' e h hstep hevent
    cases hstep with
    | program _ hprogram =>
        obtain rfl := Option.some.inj hevent
        exact hprogram
    | within hstage hpart _ hprogram =>
        obtain rfl := Option.some.inj hevent
        rwa [h.seenBy_eq ⟨_, hstage, ControllerEvent.ne_ended_of_stage hpart⟩] at hprogram
    | complete hstage hpart _ hprogram _ =>
        obtain rfl := Option.some.inj hevent
        rwa [h.seenBy_eq ⟨_, hstage, ControllerEvent.ne_ended_of_stage hpart⟩] at hprogram
    | _ => cases hevent
  silent := by
    intro s event s' _ hstep hevent
    cases hstep with
    | call _ _ | loop _ _ | published _ _ _ => rfl
    | _ => cases hevent

/-- Nothing of an iteration is half done. -/
structure BetweenIterations (s : Controller R τ) : Prop where
  link : s.link = .receiving
  published : s.commands.isIdle = true
  returned : ∀ call, s.canState.calls none = some call → call.result.isSome
  bus : s.traffic.stage = .receiving
  delivered : s.commands.history = JointCommand.default :: commandsOf s.traffic.received

theorem betweenIterations {s : Controller R τ} (hs : s.Reached) (hlink : s.link = .receiving) :
    BetweenIterations s where
  link := hlink
  published := hs.commandsIdle (by simp [hlink])
  returned := hs.attentive.canState.returned (by simp [hlink])
  bus := by simpa [hlink] using hs.coordinated.stage
  delivered := hs.delivered.published

/-- With no thread alive the bus is left to the others. -/
theorem traffic_kept (hnone : ∀ i, ¬ s.communication.members.Live i) (hstep : Step s event s') :
    s'.controller.traffic.received = s.controller.traffic.received ∧
      s'.controller.traffic.iterations = s.controller.traffic.iterations := by
  cases hstep with
  | program hevent hprogram =>
      cases hprogram with
      | receiveCommand _ _ _ | receiveOther _ _ | transmitState _ _ _ _
      | transmitNothing _ _ _ => cases hevent
      | _ => exact ⟨rfl, rfl⟩
  | within hstage hpart _ _ =>
      exact absurd ⟨_, hstage, ControllerEvent.ne_ended_of_stage hpart⟩ (hnone _)
  | complete hstage hpart _ _ _ =>
      exact absurd ⟨_, hstage, ControllerEvent.ne_ended_of_stage hpart⟩ (hnone _)
  | _ => exact ⟨rfl, rfl⟩

/-- What a step is for the communication: none, or one that keeps calls apart. -/
theorem communication_cases (hstep : s.Step event s') :
    s'.communication = s.communication ∨
      ∃ access, CommunicationLifecycle.SeparateStep s.communication access s'.communication := by
  cases hstep with
  | program _ _ | within _ _ _ _ => exact .inl rfl
  | call _ hseparate => exact .inr ⟨_, hseparate⟩
  | loop _ hwork | published _ _ hwork | complete _ _ _ _ hwork =>
      exact .inr ⟨_, hwork, trivial⟩

/-- With no thread alive there is none until another is created. -/
theorem dead_of_execution {trace : List (RestartableEvent R τ)}
    (hexec : Execution Step s trace s') :
    s.communication.members.workers.length ≤ s'.communication.members.workers.length ∧
      (s'.communication.members.workers.length = s.communication.members.workers.length →
        (∀ i, ¬ s.communication.members.Live i) → ∀ i, ¬ s'.communication.members.Live i) := by
  induction hexec with
  | refl _ => exact ⟨le_rfl, fun _ => id⟩
  | cons hstep _ ih =>
      obtain ⟨hrest, hlast⟩ := ih
      rcases communication_cases hstep with hsame | ⟨access, haccess, -⟩
      · rw [hsame] at hrest hlast
        exact ⟨hrest, hlast⟩
      · rcases CommunicationLifecycle.workers_of_step haccess with hcreated | ⟨hlength, hlive⟩
        · exact ⟨by omega, fun hsame => by omega⟩
        · rw [hlength] at hrest hlast
          exact ⟨hrest, fun hsame hnone => hlast hsame fun i hi => hnone i (hlive i hi)⟩

/-- Starting and stopping the communication does not show.  As long as an accepted `start`
and a `stop` stay apart, whatever is started, stopped and restarted, every execution is one
of the program with a single communication thread, and a worker that is alive sees that
program.  From the return of a `stop` until another worker is created none is alive, whatever
calls are on their way; then nothing of an iteration is half done, every valid command
received has been published, and no frame is received or transmitted. -/
theorem restarts_refine {robot : Robot R} {trace : List (RestartableEvent R τ)}
    (hexec : Execution Step (initial robot) trace s) :
    Execution Controller.Step (.initial robot) (trace.filterMap RestartableEvent.event)
        s.controller ∧
      (∀ i, s.communication.members.Live i → s.seenBy i = s.controller) ∧
      (s.communication.members.running = false →
        (∀ t, (s.communication.callers t).isStopping = false) →
          ∀ i, ¬ s.communication.members.Live i) ∧
      (∀ t returned rest later, (s.communication.callers t).isStopping = true →
        Step s (.call (.proceed t)) returned → returned.communication.callers t = .outside →
        Execution Step returned rest later →
        later.communication.members.workers.length =
          returned.communication.members.workers.length →
          ∀ i, ¬ later.communication.members.Live i) ∧
      ((∀ i, ¬ s.communication.members.Live i) →
        BetweenIterations s.controller ∧
          ∀ event s', Step s event s' →
            s'.controller.traffic.received = s.controller.traffic.received ∧
              s'.controller.traffic.iterations = s.controller.traffic.iterations) := by
  obtain ⟨haligned, hprogram⟩ := refines.execution hexec (aligned_initial robot)
  have hreached : s.controller.Reached := ⟨_, _, ⟨robot, rfl⟩, hprogram⟩
  refine ⟨hprogram, fun i hi => haligned.seenBy_eq hi, ?_, ?_,
    fun hnone => ⟨betweenIterations hreached (haligned.rest hnone),
      fun event s' hstep => traffic_kept hnone hstep⟩⟩
  · intro hstopped hreturned
    rcases haligned.separate.consistent.phase with hsettled | ⟨t, hlaunching⟩
    · exact hsettled.stopped hstopped hreturned
    · rw [hlaunching.running] at hstopped
      cases hstopped
  · intro t returned rest later hstopping hstep houtside hrest hsame
    refine (dead_of_execution hrest).2 hsame ?_
    cases hstep with
    | call _ hseparate =>
        exact haligned.separate.consistent.returned hseparate.1 hstopping houtside

/-! ## Schedules -/

/-- What an event leads to, when it is possible; whether calls stay apart is not checked. -/
def next (s : Restartable R τ) : RestartableEvent R τ → Option (Restartable R τ)
  | .program event =>
      if event.stage = none then
        (s.controller.next event).map fun controller => { s with controller := controller }
      else none
  | .call event =>
      if isCall event = true then
        (s.communication.next event).map fun communication =>
          { s with communication := communication }
      else none
  | .loop i =>
      if s.stage i = some .checking ∨ s.stage i = some .sleeping then
        (s.communication.next (.work i false)).map fun communication =>
          { s with communication := communication }
      else none
  | .published i =>
      if s.stage i = some .publishing ∧ s.controller.commands.isIdle = true then
        (s.communication.next (.work i false)).map fun communication =>
          { s with communication := communication }
      else none
  | .iterate i event => do
      let before ← s.stage i
      if event.stage = some before then
        let controller ← (s.seenBy i).next event
        if event.endsStage = true then
          let communication ←
            s.communication.next (.work i s.controller.receivedCommand.isSome)
          return s.after i controller communication
        else return s.after i controller s.communication
      else none

/-- With one thread that calls, they do. -/
theorem step_of_next [Subsingleton τ] (h : s.next event = some s') : Step s event s' := by
  cases event with
  | program event =>
      simp only [next] at h
      split_ifs at h with hevent
      obtain ⟨controller, hprogram, rfl⟩ := Option.map_eq_some_iff.mp h
      exact .program hevent (Controller.step_of_next hprogram)
  | call event =>
      simp only [next] at h
      split_ifs at h with hcall
      obtain ⟨communication, hstep, rfl⟩ := Option.map_eq_some_iff.mp h
      exact .call hcall ⟨hstep, s.communication.separate_of_subsingleton event⟩
  | loop i =>
      simp only [next] at h
      split_ifs at h with hstage
      obtain ⟨communication, hstep, rfl⟩ := Option.map_eq_some_iff.mp h
      exact .loop hstage hstep
  | published i =>
      simp only [next] at h
      split_ifs at h with hstage
      obtain ⟨communication, hstep, rfl⟩ := Option.map_eq_some_iff.mp h
      exact .published hstage.1 hstage.2 hstep
  | iterate i event =>
      obtain ⟨before, hbefore, h⟩ := Option.bind_eq_some_iff.mp h
      split_ifs at h with hevent hends
      · obtain ⟨controller, hprogram, h⟩ := Option.bind_eq_some_iff.mp h
        obtain ⟨communication, hstep, h⟩ := Option.bind_eq_some_iff.mp h
        obtain rfl := Option.some.inj h
        exact .complete hbefore hevent hends (Controller.step_of_next hprogram) hstep
      · obtain ⟨controller, hprogram, h⟩ := Option.bind_eq_some_iff.mp h
        obtain rfl := Option.some.inj h
        exact .within hbefore hevent (Bool.eq_false_iff.mpr hends)
          (Controller.step_of_next hprogram)

/-! ## One restart -/

/-- A call of `start` or of `stop` with so many accesses. -/
def calling (event : CommunicationEvent Unit) (accesses : Nat) :
    List (RestartableEvent ℚ Unit) :=
  .call event :: List.replicate accesses (.call (.proceed ()))

/-- The first thread begins an iteration. -/
def firstOnly : List (RestartableEvent ℚ Unit) :=
  calling (.start ()) 3 ++ [.loop 0, .iterate 0 .receive, .iterate 0 .sample] ++
    List.replicate 4 (.iterate 0 .accessState)

/-- It is stopped, and another is started and stopped. -/
def handOver : List (RestartableEvent ℚ Unit) :=
  [.loop 0] ++ calling (.stop ()) 3 ++ [.loop 0, .call (.proceed ())] ++
    calling (.start ()) 3 ++ calling (.stop ()) 3 ++ [.loop 1, .call (.proceed ())]

/-- The program once the first thread has transmitted the state. -/
def transmitted (s : Restartable ℚ Unit) (communication : CommunicationLifecycle Unit) :
    Restartable ℚ Unit :=
  s.after 0
    { s.seenBy 0 with
      traffic := s.controller.traffic.finish (some (JointStateCodec.stateFrame 0 0))
      link := .receiving }
    communication

theorem restarts_refine_handOver :
    ∃ s : Restartable ℚ Unit, s.controller.Reached ∧ s.controller.traffic.iterations = 1 ∧
      s.communication.members.workers = [.ended, .ended] ∧ BetweenIterations s.controller := by
  have hrun : ∃ (s₁ s₂ : Restartable ℚ Unit) (call : Call StateCell ℚ (JointState ℚ))
      (communication : CommunicationLifecycle Unit),
      firstOnly.foldlM next (initial Robot.initial) = some s₁ ∧
      (s₁.seenBy 0).link = .reading ∧ (s₁.seenBy 0).canState.calls none = some call ∧
      call.result = some (true, JointState.default) ∧ s₁.stage 0 = some .transmitting ∧
      s₁.communication.next (.work 0 s₁.controller.receivedCommand.isSome) =
        some communication ∧
      handOver.foldlM next (transmitted s₁ communication) = some s₂ ∧
      s₂.controller.traffic.iterations = 1 ∧ s₂.communication.members.running = false ∧
      s₂.communication.members.workers = [.ended, .ended] ∧
      s₂.communication.callers () = .outside :=
    ⟨_, _, _, _, rfl, rfl, rfl, rfl, rfl, rfl, rfl, rfl, rfl, rfl, rfl⟩
  obtain ⟨s₁, s₂, call, communication, hs₁, hlink, hcall, hread, hstage, hwork, hs₂, hone,
    hstopped, hended, houtside⟩ := hrun
  have hfirst := Execution.of_schedule (fun _ _ _ => step_of_next) firstOnly hs₁
  have hlast := Execution.of_schedule (fun _ _ _ => step_of_next) handOver hs₂
  have htransmit : Step s₁ (.iterate 0 .transmit) (transmitted s₁ communication) :=
    .complete hstage rfl rfl (.transmitState hlink hcall hread JointStateCodec.encode_default) hwork
  obtain ⟨hprogram, -, hnone, -, hrest⟩ := restarts_refine (hfirst.append (.cons htransmit hlast))
  refine ⟨s₂, ⟨_, _, ⟨_, rfl⟩, hprogram⟩, hone, hended, (hrest (hnone hstopped fun t => ?_)).1⟩
  rw [houtside]
  rfl

end Restartable

end RobotController.System
