/-
  System/MainProgram.lean --- what `main` reports.

  Source: `main.cpp`.

  The program sends one command over the bus, starts the communication, runs the control
  loop for a number of cycles, polls their count, stops the communication and asks for the
  state of the robot.  Its thread takes these steps in this order; the worker of the loop
  and that of the communication take theirs in between.
-/
import RobotController.Core.Mirror
import RobotController.System.CommunicationRestarts
import RobotController.System.FinalReport

set_option autoImplicit false

namespace RobotController.Control.ControlLoop

open RobotController.Foundation RobotController.Core RobotController.Communication
open RobotController.System

/-! ## Commands that are held -/

section Held

variable {R : Type}

/-- The command each cycle acts on: a failed read leaves the last one in place. -/
def held (last : JointCommand R) : List (Option (JointCommand R)) → List (JointCommand R)
  | [] => []
  | outcome :: rest => outcome.getD last :: held (outcome.getD last) rest

theorem length_held (outcomes : List (Option (JointCommand R))) :
    ∀ last : JointCommand R, (held last outcomes).length = outcomes.length := by
  induction outcomes with
  | nil => exact fun _ => rfl
  | cons outcome rest ih => exact fun last => congrArg (· + 1) (ih _)

variable {first second : JointCommand R} {outcomes : List (Option (JointCommand R))} {k l : Nat}

theorem held_replicate (h : outcomes.filterMap id = List.replicate l second) :
    held second outcomes = List.replicate outcomes.length second := by
  induction outcomes generalizing l with
  | nil => rfl
  | cons outcome rest ih =>
      cases outcome with
      | none => exact congrArg (second :: ·) (ih h)
      | some command =>
          rw [List.filterMap_cons_some (f := id) rfl] at h
          have hall := List.eq_replicate_iff.mp h
          obtain rfl : command = second := hall.2 command (List.mem_cons_self ..)
          have hrest : rest.filterMap id = List.replicate (rest.filterMap id).length command :=
            List.eq_replicate_of_mem fun other hmem => hall.2 other (List.mem_cons_of_mem _ hmem)
          exact congrArg (command :: ·) (ih hrest)

/-- Reads that switch once hold the first command and then the second. -/
theorem held_switch
    (h : outcomes.filterMap id = List.replicate k first ++ List.replicate l second) :
    ∃ k' l', held first outcomes = List.replicate k' first ++ List.replicate l' second := by
  induction outcomes generalizing k with
  | nil => exact ⟨0, 0, rfl⟩
  | cons outcome rest ih =>
      cases outcome with
      | none =>
          obtain ⟨k', l', hrest⟩ := ih h
          exact ⟨k' + 1, l', congrArg (first :: ·) hrest⟩
      | some command =>
          rw [List.filterMap_cons_some (f := id) rfl] at h
          cases k with
          | zero =>
              rw [List.replicate_zero, List.nil_append] at h
              obtain rfl : command = second :=
                (List.eq_replicate_iff.mp h).2 command (List.mem_cons_self ..)
              have hall : held command (some command :: rest) =
                  List.replicate (rest.length + 1) command :=
                held_replicate ((List.filterMap_cons_some (f := id) rfl).trans h)
              exact ⟨0, rest.length + 1, hall⟩
          | succ k =>
              rw [List.replicate_succ, List.cons_append] at h
              obtain ⟨rfl, hrest⟩ := List.cons.inj h
              obtain ⟨k', l', hheld⟩ := ih hrest
              exact ⟨k' + 1, l', congrArg (command :: ·) hheld⟩

variable [Double R] {robot : Robot R} {last : JointCommand R}

omit [Double R] in
/-- To aim joint 1 where it aims changes nothing. -/
theorem setJointTargetPosition_target {target : Angle R}
    (h : Controller.target robot = target) :
    (robot.setJointTargetPosition ⟨0⟩ target).2 = robot := by
  subst h
  exact Robot.ext rfl (Function.update_eq_self (0 : Fin jointCount) robot.joints)

theorem advance_getD (h : Controller.target robot = last.targetPosition)
    (outcome : Option (JointCommand R)) :
    advance robot outcome = advance robot (some (outcome.getD last)) := by
  cases outcome with
  | none => exact congrArg (Robot.update dt) (setJointTargetPosition_target h).symm
  | some command => rfl

theorem target_advance (command : JointCommand R) :
    Controller.target (advance robot (some command)) = command.targetPosition :=
  Controller.target_steer robot (true, command)

/-- A failed read repeats the command before it. -/
theorem trajectory_held (outcomes : List (Option (JointCommand R))) :
    ∀ {robot : Robot R} {last : JointCommand R}, Controller.target robot = last.targetPosition →
      trajectory robot outcomes = trajectory robot ((held last outcomes).map some) := by
  induction outcomes with
  | nil => exact fun _ => rfl
  | cons outcome rest ih =>
      intro robot last h
      have hnext : Controller.target (advance robot (some (outcome.getD last))) =
          (outcome.getD last).targetPosition := target_advance _
      change trajectory (advance robot outcome) rest = _
      rw [advance_getD h]
      exact ih hnext

end Held

end RobotController.Control.ControlLoop

namespace RobotController.System

open RobotController.Foundation RobotController.Core RobotController.Communication
open RobotController.Control RobotController.Synchronization

/-! ## The thread of `main` -/

/-- The calls that take more than one step. -/
inductive MainCall where
  /-- `communication.start()` -/
  | start
  /-- `control_loop.run(cycle_count)` -/
  | run
  /-- `communication.stop()` -/
  | stop
  /-- `control_loop.state()` -/
  | state
  deriving DecidableEq, Repr

/-- Where the thread is. -/
inductive MainPlace where
  /-- before `robot.initializeJointPosition(JointIndex{0}, Angle{0.0})` -/
  | initializing
  /-- before `can.transmit(tx)` -/
  | transmitting
  | calling (call : MainCall)
  | within (call : MainCall)
  /-- `while (control_loop.completedCycles() < cycle_count)` -/
  | polling
  | returned
  deriving DecidableEq, Repr

/-- The program: where `main` is, and everything else. -/
structure MainProgram (R : Type) where
  place : MainPlace
  system : Restartable R Unit

/-- Whether an event is a step of the worker of the loop or of a communication thread. -/
def RestartableEvent.isBackground {R : Type} : RestartableEvent R Unit → Bool
  | .program (.lifecycle (.work _)) => true
  | .program (.lifecycle _) | .program (.operate _) | .program (.external _) => false
  | .program (.lockState _) | .program (.accessSnapshot _) | .program (.returnState _) => false
  | .program (.readCanState _ _) | .program (.accessCanState _) => false
  | .program _ => true
  | .call _ => false
  | _ => true

namespace MainCall

variable {R : Type}

/-- The first step of a call. -/
def entry (n : Int) : MainCall → RestartableEvent R Unit
  | .start => .call (.start ())
  | .run => .program (.lifecycle (.call () (.wantsRun n)))
  | .stop => .call (.stop ())
  | .state => .program (.lockState ())

/-- Whether an event is a later step of a call. -/
def continues : MainCall → RestartableEvent R Unit → Bool
  | .start, .call (.proceed _) | .stop, .call (.proceed _) => true
  | .run, .program (.lifecycle (.acquire _)) | .run, .program (.lifecycle (.proceed _))
  | .run, .program (.lifecycle (.release _)) => true
  | .state, .program (.accessSnapshot _) | .state, .program (.returnState _) => true
  | _, _ => false

/-- The call has returned. -/
def HasReturned (s : Restartable R Unit) : MainCall → Prop
  | .start | .stop => s.communication.callers () = .outside
  | .run => s.controller.loop.callers () = .outside
  | .state => s.controller.stateMutex = none

/-- The later steps of `start` and `stop`, of `run`, and of `state`. -/
theorem continues_cases {call : MainCall} {event : RestartableEvent R Unit}
    (h : call.continues event = true) :
    ((call = .start ∨ call = .stop) ∧ ∃ t, event = .call (.proceed t)) ∨
      (call = .run ∧ ∃ access : LifecycleEvent Unit,
        access.asked = [] ∧ event = .program (.lifecycle access)) ∨
      (call = .state ∧ ∃ t, event = .program (.accessSnapshot t) ∨
        event = .program (.returnState t)) := by
  unfold continues at h
  split at h
  · exact .inl ⟨.inl rfl, _, rfl⟩
  · exact .inl ⟨.inr rfl, _, rfl⟩
  · exact .inr (.inl ⟨rfl, _, rfl, rfl⟩)
  · exact .inr (.inl ⟨rfl, _, rfl, rfl⟩)
  · exact .inr (.inl ⟨rfl, _, rfl, rfl⟩)
  · exact .inr (.inr ⟨rfl, _, .inl rfl⟩)
  · exact .inr (.inr ⟨rfl, _, .inr rfl⟩)
  · cases h

instance (s : Restartable R Unit) (call : MainCall) : Decidable (call.HasReturned s) :=
  match call with
  | .start | .stop => inferInstanceAs (Decidable (s.communication.callers () = .outside))
  | .run => inferInstanceAs (Decidable (s.controller.loop.callers () = .outside))
  | .state => inferInstanceAs (Decidable (s.controller.stateMutex = none))

/-- What follows a call. -/
def next : MainCall → MainPlace
  | .start => .calling .run
  | .run => .polling
  | .stop => .calling .state
  | .state => .returned

end MainCall

namespace MainProgram

section Machine

variable (R : Type) [Double R]

/-- `robot.initializeJointPosition(JointIndex{0}, Angle{0.0})`. -/
def initialization : RobotOperation R := .initializeJointPosition ⟨0⟩ ⟨literal 0⟩

/-- `outgoing_command.target_position = Angle{90.0}`. -/
def outgoingCommand : JointCommand R := ⟨⟨literal 90⟩⟩

/-- Everything has been constructed. -/
def initial : MainProgram R := ⟨.initializing, .initial Robot.initial⟩

variable {R} [IntConversion R]

/-- The steps of the program, for a run of `n` cycles; a step of `main` that leaves the
system alone has no event. -/
inductive Step (n : Int) :
    MainProgram R → Option (RestartableEvent R Unit) → MainProgram R → Prop where
  | background {place : MainPlace} {s s' : Restartable R Unit}
      {event : RestartableEvent R Unit} :
      event.isBackground = true → s.Step event s' →
      Step n ⟨place, s⟩ (some event) ⟨place, s'⟩
  | prepare {s s' : Restartable R Unit} :
      s.Step (.program (.operate (initialization R))) s' →
      Step n ⟨.initializing, s⟩ (some (.program (.operate (initialization R))))
        ⟨.transmitting, s'⟩
  | transmit {s s' : Restartable R Unit} {frame : CanFrame} :
      JointCommandCodec.encode (outgoingCommand R) = some frame →
      s.Step (.program (.external frame)) s' →
      Step n ⟨.transmitting, s⟩ (some (.program (.external frame))) ⟨.calling .start, s'⟩
  | enter {s s' : Restartable R Unit} {call : MainCall} :
      s.Step (call.entry n) s' →
      Step n ⟨.calling call, s⟩ (some (call.entry n)) ⟨.within call, s'⟩
  | within {s s' : Restartable R Unit} {call : MainCall} {event : RestartableEvent R Unit} :
      call.continues event = true → s.Step event s' →
      Step n ⟨.within call, s⟩ (some event) ⟨.within call, s'⟩
  | leave {s : Restartable R Unit} {call : MainCall} :
      call.HasReturned s → Step n ⟨.within call, s⟩ none ⟨call.next, s⟩
  | poll {s : Restartable R Unit} :
      s.controller.loop.completedCycles < n → Step n ⟨.polling, s⟩ none ⟨.polling, s⟩
  | polled {s : Restartable R Unit} :
      n ≤ s.controller.loop.completedCycles → Step n ⟨.polling, s⟩ none ⟨.calling .stop, s⟩

/-- The states some interleaving reaches. -/
def Reached (n : Int) (m : MainProgram R) : Prop :=
  Reachable (fun start => start = initial R) (Step n) m

/-! ## Its executions -/

variable {n : Int} {m m' : MainProgram R} {event : Option (RestartableEvent R Unit)}

/-- The system goes its way whatever `main` does. -/
theorem refines : Refines (Step (R := R) n) Restartable.Step (fun _ => True) system id where
  keeps := fun _ _ _ _ _ => trivial
  visible := by
    intro m event m' visible _ hstep hevent
    obtain rfl : event = some visible := hevent
    cases hstep <;> assumption
  silent := by
    intro m event m' _ hstep hevent
    obtain rfl : event = none := hevent
    cases hstep <;> rfl

theorem Reached.aligned (h : m.Reached n) : m.system.Aligned := by
  obtain ⟨start, trace, rfl, hexec⟩ := h
  obtain ⟨-, hsystem⟩ := refines.execution hexec trivial
  exact (Restartable.refines.execution hsystem (Restartable.aligned_initial _)).1

theorem Reached.controller (h : m.Reached n) : m.system.controller.Reached := by
  obtain ⟨start, trace, rfl, hexec⟩ := h
  obtain ⟨-, hsystem⟩ := refines.execution hexec trivial
  exact ⟨_, _, ⟨_, rfl⟩,
    (Restartable.refines.execution hsystem (Restartable.aligned_initial _)).2⟩

/-- What is done by the thread of `main`. -/
def isMain : ControllerEvent R Unit → Bool
  | .lifecycle (.work _) => false
  | .lifecycle _ | .operate _ | .external _ => true
  | .lockState _ | .accessSnapshot _ | .returnState _ => true
  | .readCanState _ _ | .accessCanState _ => true
  | _ => false

section Background

variable {s s' : Restartable R Unit} {event : RestartableEvent R Unit}
  {c c' : Controller R Unit} {step : ControllerEvent R Unit}

/-- The other threads do nothing in its place. -/
theorem isMain_of_background (hstep : s.Step event s') (hback : event.isBackground = true)
    (hevent : event.event = some step) : isMain step = false := by
  cases event with
  | program visible =>
      obtain rfl := Option.some.inj hevent
      cases visible with
      | lifecycle event => cases event <;> first | rfl | cases hback
      | _ => first | rfl | cases hback
  | iterate i visible =>
      obtain rfl := Option.some.inj hevent
      have hstage : visible.stage ≠ none := by
        cases hstep with
        | within _ hstage _ _ | complete _ hstage _ _ _ => simp [hstage]
      cases visible <;> first | rfl | exact absurd rfl hstage
  | _ => cases hevent

/-- Before the first call there is nobody else. -/
theorem not_background_initial (robot : Robot R)
    (hstep : (Restartable.initial robot).Step event s') : event.isBackground = false := by
  cases hstep with
  | program hstage hprogram =>
      cases hprogram with
      | @lifecycle event _ _ hloop =>
          cases event with
          | work i => cases hloop
          | _ => rfl
      | operate _ _ | external _ | lockState _ _ | accessSnapshot _ _ | returnState _ _ _
      | readCanState _ | accessCanState _ => rfl
      | beginCycle _ hupdating _ => cases hupdating
      | accessCommand hphase _ | steer hphase _ _ | publishState hphase _ | writeState hphase _
      | publishSnapshot hphase _ _ | writeSnapshot hphase _ | endCycle hphase _ _ _ _ =>
          cases hphase
      | _ => cases hstage
  | call _ _ => rfl
  | loop hstage _ => rcases hstage with hstage | hstage <;> cases hstage
  | published hstage _ _ => cases hstage
  | within hstage _ _ _ => cases hstage
  | complete hstage _ _ _ _ => cases hstage

theorem reports_of_step (hstep : c.Step step c') (hnone : ∀ t, step ≠ .returnState t) :
    c'.reports = c.reports := by
  cases hstep with
  | returnState _ _ _ => exact absurd rfl (hnone _)
  | _ => rfl

/-- Once the worker has steered the robot has not been touched since. -/
theorem steerings_of_step (hstep : c.Step step c') (hnone : ∀ operation, step ≠ .operate operation)
    (h : c.touched = true → c.steerings = []) : c'.touched = true → c'.steerings = [] := by
  cases hstep with
  | operate operation _ => exact absurd rfl (hnone operation)
  | steer _ _ _ => simp [Controller.steer]
  | _ => exact h

/-- What a step asks of the loop. -/
def askedBy : ControllerEvent R Unit → List Int
  | .lifecycle event => event.asked
  | _ => []

theorem asked_of_step {requested : List Int} (hstep : c.Step step c')
    (h : c.loop.Asked () requested) : c'.loop.Asked () (requested ++ askedBy step) := by
  cases hstep with
  | lifecycle _ hloop => exact h.step hloop fun _ _ _ => rfl
  | endCycle _ _ _ _ hloop => exact h.step hloop fun _ _ heq => by cases heq
  | _ =>
      change Lifecycle.Asked () (requested ++ []) _
      rw [List.append_nil]
      exact h

/-- What a step transmits from outside. -/
def sentBy : ControllerEvent R Unit → List CanFrame
  | .external frame => [frame]
  | _ => []

omit [Double R] [IntConversion R] in
theorem nothing_of_not_isMain (h : isMain step = false) :
    askedBy step = [] ∧ sentBy step = [] ∧ (∀ operation, step ≠ .operate operation) ∧
      ∀ t, step ≠ .returnState t := by
  refine ⟨?_, ?_, ?_, ?_⟩
  · cases step with
    | lifecycle event => cases event <;> first | rfl | cases h
    | _ => rfl
  · cases step <;> first | rfl | cases h
  · rintro operation rfl
    cases h
  · rintro t rfl
    cases h

end Background

/-! ## Once the robot has been initialized -/

variable (R) in
/-- The program after `initializeJointPosition`. -/
def prepared : Controller R Unit :=
  { Controller.initial Robot.initial with
    robot := (Robot.initial.apply (initialization R)).2
    touched := true }

/-- The robot has been left to the worker since; what the loop has been asked for, what has
been sent, and how many cycles have been counted at least. -/
structure Running (requested : List Int) (sent : List CanFrame) (counted : Int)
    (c : Controller R Unit) : Prop where
  begun : ∃ trace, Execution Controller.Step (prepared R) trace c ∧
    ∀ step ∈ trace, ∀ operation, step ≠ .operate operation
  asked : c.loop.Asked () requested
  sent : c.traffic.external = sent
  steered : c.touched = true → c.steerings = []
  counted : counted ≤ c.loop.members.measuredCycles

theorem running_prepared : Running [] [] 0 (prepared R) where
  begun := ⟨[], .refl _, by simp⟩
  asked := ⟨fun _ _ => rfl, .slnil⟩
  sent := rfl
  steered := fun _ => rfl
  counted := le_rfl

section Running

variable {requested : List Int} {sent : List CanFrame} {counted : Int} {c c' : Controller R Unit}
  {step : ControllerEvent R Unit} {s s' : Restartable R Unit} {visible : RestartableEvent R Unit}

theorem Running.next (h : Running requested sent counted c) (hstep : c.Step step c')
    (hevent : ∀ operation, step ≠ .operate operation) :
    Running (requested ++ askedBy step) (sent ++ sentBy step) counted c' where
  begun := by
    obtain ⟨trace, hexec, hnone⟩ := h.begun
    refine ⟨trace ++ [step], hexec.snoc hstep, fun other hmem => ?_⟩
    rcases List.mem_append.mp hmem with hold | hnew
    · exact hnone other hold
    · exact List.mem_singleton.mp hnew ▸ hevent
  asked := asked_of_step hstep h.asked
  sent := by
    rw [← h.sent]
    cases hstep with
    | external frame => rfl
    | receiveCommand _ _ _ | receiveOther _ _ =>
        exact (Traffic.external_receive _).trans (List.append_nil _).symm
    | _ => exact (List.append_nil _).symm
  steered := steerings_of_step hstep hevent h.steered
  counted := by
    rw [Controller.measured_of_step hstep]
    exact h.counted.trans (by exact_mod_cast Nat.le_add_right _ _)

/-- The steps of a system that is aligned. -/
theorem cases_of_step (haligned : s.Aligned) (hstep : s.Step visible s') :
    visible.event = none ∧ s'.controller = s.controller ∨
      ∃ step, visible.event = some step ∧ s.controller.Step step s'.controller := by
  cases hevent : visible.event with
  | none => exact .inl ⟨rfl, Restartable.refines.silent _ _ _ haligned hstep hevent⟩
  | some step => exact .inr ⟨step, rfl, Restartable.refines.visible _ _ _ _ haligned hstep hevent⟩

theorem Running.system (h : Running requested sent counted s.controller) (haligned : s.Aligned)
    (hstep : s.Step visible s') (hleft : ∀ operation, visible.event ≠ some (.operate operation)) :
    Running (requested ++ visible.event.elim [] askedBy) (sent ++ visible.event.elim [] sentBy)
      counted s'.controller := by
  rcases cases_of_step haligned hstep with ⟨hnone, hsame⟩ | ⟨step, hevent, hstep'⟩
  · rw [hnone, hsame, Option.elim_none, Option.elim_none, List.append_nil, List.append_nil]
    exact h
  · rw [hevent, Option.elim_some, Option.elim_some]
    exact h.next hstep' fun operation heq => hleft operation (hevent.trans (congrArg some heq))

/-- A step that asks for nothing and sends nothing. -/
theorem Running.aside (h : Running requested sent counted s.controller) (haligned : s.Aligned)
    (hstep : s.Step visible s') (hleft : ∀ operation, visible.event ≠ some (.operate operation))
    (hasked : visible.event.elim [] askedBy = []) (hsent : visible.event.elim [] sentBy = []) :
    Running requested sent counted s'.controller := by
  have hnext := h.system haligned hstep hleft
  rwa [hasked, hsent, List.append_nil, List.append_nil] at hnext

theorem Running.background (h : Running requested sent counted s.controller)
    (haligned : s.Aligned) (hstep : s.Step visible s') (hback : visible.isBackground = true) :
    Running requested sent counted s'.controller := by
  cases hevent : visible.event with
  | none => exact h.aside haligned hstep (by simp [hevent]) (by simp [hevent]) (by simp [hevent])
  | some step =>
      obtain ⟨hasked, hsent, hleft, -⟩ :=
        nothing_of_not_isMain (isMain_of_background hstep hback hevent)
      exact h.aside haligned hstep (by simp [hevent, hleft]) (by simp [hevent, hasked])
        (by simp [hevent, hsent])

/-- The later steps of a call ask for nothing more. -/
theorem Running.within {call : MainCall} (h : Running requested sent counted s.controller)
    (haligned : s.Aligned) (hstep : s.Step visible s')
    (hcontinues : call.continues visible = true) :
    Running requested sent counted s'.controller := by
  rcases MainCall.continues_cases hcontinues with
    ⟨-, t, rfl⟩ | ⟨-, event, hasked, rfl⟩ | ⟨-, t, rfl | rfl⟩
  · exact h.aside haligned hstep (by simp [RestartableEvent.event]) rfl rfl
  · exact h.aside haligned hstep (by simp [RestartableEvent.event]) hasked rfl
  · exact h.aside haligned hstep (by simp [RestartableEvent.event]) rfl rfl
  · exact h.aside haligned hstep (by simp [RestartableEvent.event]) rfl rfl

end Running

/-! ## Where `main` is, and what it has done -/

section Places

/-- What the loop has been asked for. -/
def requested (n : Int) : MainPlace → List Int
  | .initializing | .transmitting | .calling .start | .within .start | .calling .run => []
  | _ => [n]

variable (R) in
/-- What has been sent. -/
def sent : MainPlace → List CanFrame
  | .initializing | .transmitting => []
  | _ => (JointCommandCodec.encode (outgoingCommand R)).toList

/-- Whether all cycles have been found counted. -/
def hasPolled : MainPlace → Bool
  | .calling .stop | .within .stop | .calling .state | .within .state | .returned => true
  | _ => false

/-- How many cycles have been counted at least. -/
def counted (n : Int) (place : MainPlace) : Int := if hasPolled place then n else 0

/-- What has happened when `main` is at its place. -/
def Underway (n : Int) (m : MainProgram R) : Prop :=
  m.place = .initializing ∧ m.system = .initial Robot.initial ∨
    m.place ≠ .initializing ∧
      Running (requested n m.place) (sent R m.place) (counted n m.place) m.system.controller

/-- The call of `initializeJointPosition`. -/
theorem prepared_of_step {s' : Restartable R Unit}
    (hstep : (Restartable.initial Robot.initial).Step (.program (.operate (initialization R))) s') :
    s'.controller = prepared R := by
  cases hstep with
  | program _ hprogram =>
      cases hprogram with
      | operate _ _ => rfl

theorem Underway.step (h : m.Underway n) (hm : m.Reached n) (hstep : Step n m event m') :
    m'.Underway n := by
  cases hstep with
  | background hback hstep =>
      rcases h with ⟨rfl, hinitial⟩ | ⟨hplace, hrunning⟩
      · obtain rfl : _ = Restartable.initial Robot.initial := hinitial
        rw [not_background_initial _ hstep] at hback
        cases hback
      · exact .inr ⟨hplace, hrunning.background hm.aligned hstep hback⟩
  | prepare hstep =>
      rcases h with ⟨-, hinitial⟩ | ⟨hplace, -⟩
      · obtain rfl : _ = Restartable.initial Robot.initial := hinitial
        refine .inr ⟨by simp, ?_⟩
        change Running [] [] 0 _
        rw [prepared_of_step hstep]
        exact running_prepared
      · exact absurd rfl hplace
  | transmit hencode hstep =>
      rcases h with ⟨hplace, -⟩ | ⟨-, hrunning⟩
      · cases hplace
      · refine .inr ⟨by simp, ?_⟩
        have hnext := hrunning.system hm.aligned hstep (by simp [RestartableEvent.event])
        change Running [] (JointCommandCodec.encode (outgoingCommand R)).toList 0 _
        rw [hencode]
        exact hnext
  | @enter _ _ call hstep =>
      rcases h with ⟨hplace, -⟩ | ⟨-, hrunning⟩
      · cases hplace
      · refine .inr ⟨by simp, ?_⟩
        cases call with
        | start => exact hrunning.aside hm.aligned hstep (by simp [MainCall.entry,
            RestartableEvent.event]) rfl rfl
        | run =>
            have hnext := hrunning.system hm.aligned hstep (by simp [MainCall.entry,
              RestartableEvent.event])
            rw [← List.append_nil (sent R _)]
            exact hnext
        | stop => exact hrunning.aside hm.aligned hstep (by simp [MainCall.entry,
            RestartableEvent.event]) rfl rfl
        | state => exact hrunning.aside hm.aligned hstep (by simp [MainCall.entry,
            RestartableEvent.event]) rfl rfl
  | within hcontinues hstep =>
      rcases h with ⟨hplace, -⟩ | ⟨-, hrunning⟩
      · cases hplace
      · exact .inr ⟨by simp, hrunning.within hm.aligned hstep hcontinues⟩
  | @leave _ call _ =>
      rcases h with ⟨hplace, -⟩ | ⟨-, hrunning⟩
      · cases hplace
      · cases call <;> exact .inr ⟨by simp [MainCall.next], hrunning⟩
  | poll _ => exact h
  | polled hall =>
      rcases h with ⟨hplace, -⟩ | ⟨-, hrunning⟩
      · cases hplace
      · exact .inr ⟨by simp, { hrunning with
          counted := hm.controller.completedCycles_eq ▸ hall }⟩

theorem Reached.underway (h : m.Reached n) : m.Underway n := by
  refine h.invariant_of_reachable (Underway n) ?_ fun _ _ _ hm hs hstep => hs.step hm hstep
  rintro start rfl
  exact .inl ⟨rfl, rfl⟩

end Places

/-! ## After the poll -/

section Polled

/-- All cycles have been counted and the robot is at rest. -/
structure Polled (n : Int) (c : Controller R Unit) : Prop where
  done : c.Done
  runs : c.loop.acceptedRuns = [n]
  follows : ∃ (k : Nat) (since : List (Option (JointCommand R))),
    (since.length : Int) = n ∧ (prepared R).Follows k since c
  atRest : c.AtRest c.robot

theorem Running.polled {frames : List CanFrame} {c : Controller R Unit}
    (h : Running [n] frames n c) (hreached : c.Reached) (hn : 0 < n) : Polled n c := by
  have hcreated : List.Sublist c.loop.acceptedRuns [n] :=
    ((List.sublist_append_left _ _).trans (List.sublist_append_left _ _)).trans h.asked.created
  have hexecuted := hreached.lifecycle.executedCycles_le
  rw [hreached.lifecycle.executedCycles_eq, ← Lifecycle.sum_acceptedRuns] at hexecuted
  have hcounted := h.counted
  have hruns : c.loop.acceptedRuns = [n] := by
    rcases List.sublist_singleton.mp hcreated with hnone | hone
    · rw [hnone, List.sum_nil] at hexecuted
      omega
    · exact hone
  have hdone : c.Done := by
    refine ⟨hreached, ?_⟩
    rw [← Lifecycle.sum_acceptedRuns, hruns, List.sum_singleton]
    exact hcounted
  obtain ⟨trace, hexec, hevents⟩ := h.begun
  obtain ⟨k, since, hlength, hfollows⟩ := hdone.follows rfl rfl hexec hevents
  rw [← Lifecycle.sum_acceptedRuns, hruns, List.sum_singleton] at hlength
  have htouched : c.touched = false := by
    by_contra htouched
    have hnone := h.steered (Bool.eq_true_of_not_eq_false htouched)
    have houtcomes : c.outcomes = since := hfollows.outcomes
    rw [Controller.outcomes, hnone] at houtcomes
    rw [← houtcomes] at hlength
    exact absurd hlength hn.ne
  exact ⟨hdone, hruns, ⟨k, since, hlength, hfollows⟩, hdone.atRest (by simp [hruns]) htouched⟩

theorem Reached.polled (h : m.Reached n) (hn : 0 < n) (hplace : hasPolled m.place = true) :
    Polled n m.system.controller := by
  rcases h.underway with ⟨hinitializing, -⟩ | ⟨-, hrunning⟩
  · rw [hinitializing] at hplace
    cases hplace
  · have hrequested : requested n m.place = [n] := by
      cases hlast : m.place with
      | calling call | within call =>
          rw [hlast] at hplace
          cases call <;> first | rfl | cases hplace
      | returned => rfl
      | _ =>
          rw [hlast] at hplace
          cases hplace
    rw [hrequested, counted, if_pos hplace] at hrunning
    exact hrunning.polled h.controller hn

variable {s s' : Controller R Unit} {step : ControllerEvent R Unit}

/-- Then the other steps leave the robot alone. -/
theorem Polled.quiet (h : Polled n s) (h' : Polled n s') (hstep : s.Step step s')
    (hleft : ∀ operation, step ≠ .operate operation) : step.isRobotOperation = false :=
  (h.done.step hstep (h'.runs.trans h.runs.symm) hleft).2

end Polled

/-! ## The call of `state` -/

section Report

/-- A call of `state` that has begun at rest. -/
structure Reporting (c : Controller R Unit) : Prop where
  begun : ∃ (s₀ s₁ : Controller R Unit) (trace : List (ControllerEvent R Unit)),
    s₀.AtRest s₀.robot ∧ s₀.Step (.lockState ()) s₁ ∧ Execution Controller.Step s₁ trace c ∧
      ∀ step ∈ trace, step.isRobotOperation = false
  mutex : c.stateMutex = some ()
  reports : c.reports = []

/-- It has returned. -/
structure Reported (c : Controller R Unit) : Prop where
  mutex : c.stateMutex = none
  reports : ∃ since, c.reports = [⟨since, true, c.robot.state⟩]

variable {c c' : Controller R Unit} {taken : ControllerEvent R Unit}

theorem mutex_of_step (hstep : c.Step taken c') (hlock : ∀ t, taken ≠ .lockState t)
    (hreturn : ∀ t, taken ≠ .returnState t) : c'.stateMutex = c.stateMutex := by
  cases hstep with
  | lockState _ _ => exact absurd rfl (hlock _)
  | returnState _ _ _ => exact absurd rfl (hreturn _)
  | _ => rfl

theorem mutex_of_access {t : Unit} (hstep : c.Step taken c')
    (h : taken = .accessSnapshot t ∨ taken = .returnState t) : c.stateMutex = some t := by
  rcases h with rfl | rfl
  · cases hstep with
    | accessSnapshot hmutex _ => exact hmutex
  · cases hstep with
    | returnState hmutex _ _ => exact hmutex

theorem robot_of_step (hstep : c.Step taken c') (hquiet : taken.isRobotOperation = false) :
    c'.robot = c.robot := by
  cases hstep with
  | operate _ _ | steer _ _ _ => cases hquiet
  | _ => rfl

theorem Reporting.next (h : Reporting c) (hstep : c.Step taken c')
    (hquiet : taken.isRobotOperation = false) (hreturn : ∀ t, taken ≠ .returnState t) :
    Reporting c' := by
  obtain ⟨⟨s₀, s₁, trace, hrest, hlock, hexec, hnone⟩, hmutex, hreports⟩ := h
  have hlocks : ∀ t, taken ≠ .lockState t := by
    rintro t rfl
    cases hstep with
    | lockState hfree _ =>
        rw [hmutex] at hfree
        cases hfree
  refine ⟨⟨s₀, s₁, trace ++ [taken], hrest, hlock, hexec.snoc hstep, fun other hmem => ?_⟩,
    (mutex_of_step hstep hlocks hreturn).trans hmutex,
    (reports_of_step hstep hreturn).trans hreports⟩
  rcases List.mem_append.mp hmem with hold | hnew
  · exact hnone other hold
  · exact List.mem_singleton.mp hnew ▸ hquiet

theorem Reporting.returned {t : Unit} (h : Reporting c) (hstep : c.Step (.returnState t) c') :
    Reported c' := by
  obtain ⟨⟨s₀, s₁, trace, hrest, hlock, hexec, hnone⟩, -, hreports⟩ := h
  obtain ⟨-, since, hreport⟩ := hrest.report hlock hexec hnone hstep
  rw [hreports, List.nil_append] at hreport
  refine ⟨?_, since, hreport⟩
  cases hstep with
  | returnState _ _ _ => rfl

theorem Reported.next (h : Reported c) (hstep : c.Step taken c')
    (hquiet : taken.isRobotOperation = false) (hlock : ∀ t, taken ≠ .lockState t)
    (hreturn : ∀ t, taken ≠ .returnState t) : Reported c' := by
  obtain ⟨hmutex, since, hreport⟩ := h
  refine ⟨(mutex_of_step hstep hlock hreturn).trans hmutex, since, ?_⟩
  rw [reports_of_step hstep hreturn, robot_of_step hstep hquiet, hreport]

/-- What has been reported when `main` is at its place. -/
def Reports (m : MainProgram R) : Prop :=
  m.place ≠ .within .state ∧ m.place ≠ .returned ∧ m.system.controller.reports = [] ∨
    m.place = .within .state ∧ Reporting m.system.controller ∨
    (m.place = .within .state ∨ m.place = .returned) ∧ Reported m.system.controller

theorem reports_kept {s s' : Restartable R Unit} {visible : RestartableEvent R Unit}
    (haligned : s.Aligned) (hstep : s.Step visible s')
    (hreturn : ∀ t, visible.event ≠ some (.returnState t)) :
    s'.controller.reports = s.controller.reports := by
  rcases cases_of_step haligned hstep with ⟨-, hsame⟩ | ⟨step, hevent, hstep'⟩
  · rw [hsame]
  · exact reports_of_step hstep' fun t heq => hreturn t (hevent.trans (congrArg some heq))

/-- The steps of the other threads. -/
theorem Reports.background {place : MainPlace} {s s' : Restartable R Unit}
    {visible : RestartableEvent R Unit} (h : Reports ⟨place, s⟩) (hm : Reached n ⟨place, s⟩)
    (hm' : Reached n ⟨place, s'⟩) (hn : 0 < n) (hback : visible.isBackground = true)
    (hstep : s.Step visible s') : Reports ⟨place, s'⟩ := by
  rcases cases_of_step hm.aligned hstep with ⟨-, hsame⟩ | ⟨step, hevent, hstep'⟩
  · simp only [Reports] at h ⊢
    rwa [hsame]
  · have hother := isMain_of_background hstep hback hevent
    obtain ⟨-, -, hleft, hreturn⟩ := nothing_of_not_isMain hother
    have hlock : ∀ t, step ≠ .lockState t := by
      rintro t rfl
      cases hother
    rcases h with ⟨hwithin, hreturned, hnone⟩ | ⟨hplace, hreporting⟩ | ⟨hplace, hreported⟩
    · exact .inl ⟨hwithin, hreturned, (reports_of_step hstep' hreturn).trans hnone⟩
    · have hpolled : hasPolled place = true := by
        rw [show place = .within .state from hplace]
        rfl
      have hquiet := (hm.polled hn hpolled).quiet (hm'.polled hn hpolled) hstep' hleft
      exact .inr (.inl ⟨hplace, hreporting.next hstep' hquiet hreturn⟩)
    · have hpolled : hasPolled place = true := by
        rcases hplace with hplace | hplace <;>
        · rw [show place = _ from hplace]
          rfl
      have hquiet := (hm.polled hn hpolled).quiet (hm'.polled hn hpolled) hstep' hleft
      exact .inr (.inr ⟨hplace, hreported.next hstep' hquiet hlock hreturn⟩)

/-- The call of `state` begins. -/
theorem Reporting.of_enter {s s' : Restartable R Unit} (hm : Reached n ⟨.calling .state, s⟩)
    (hn : 0 < n) (hnone : s.controller.reports = [])
    (hstep : s.Step (.program (.lockState ())) s') : Reporting s'.controller := by
  cases hstep with
  | program _ hprogram =>
      refine ⟨⟨_, _, [], (hm.polled hn rfl).atRest, hprogram, .refl _, by simp⟩, ?_,
        (reports_of_step hprogram (by simp)).trans hnone⟩
      cases hprogram with
      | lockState _ _ => rfl

/-- The later steps of the call of `state`. -/
theorem Reports.withinState {s s' : Restartable R Unit} {visible : RestartableEvent R Unit}
    (h : Reports ⟨.within .state, s⟩) (hm : Reached n ⟨.within .state, s⟩)
    (hm' : Reached n ⟨.within .state, s'⟩) (hn : 0 < n)
    (hcontinues : MainCall.state.continues visible = true) (hstep : s.Step visible s') :
    Reports ⟨.within .state, s'⟩ := by
  rcases MainCall.continues_cases hcontinues with ⟨hcall | hcall, -⟩ | ⟨hcall, -⟩ | ⟨-, t, hvisible⟩
  · cases hcall
  · cases hcall
  · cases hcall
  · rcases h with ⟨hplace, -, -⟩ | ⟨hplace, hreporting⟩ | ⟨hplace, hreported⟩
    · exact absurd rfl hplace
    · rcases hvisible with rfl | rfl
      · cases hstep with
        | program _ hprogram =>
            have hquiet := (hm.polled hn rfl).quiet (hm'.polled hn rfl) hprogram (by simp)
            exact .inr (.inl ⟨rfl, hreporting.next hprogram hquiet (by simp)⟩)
      · cases hstep with
        | program _ hprogram => exact .inr (.inr ⟨.inl rfl, hreporting.returned hprogram⟩)
    · have hfree : s.controller.stateMutex = none := hreported.mutex
      have hheld : s.controller.stateMutex = some t := by
        rcases hvisible with rfl | rfl
        · cases hstep with
          | program _ hprogram => exact mutex_of_access hprogram (.inl rfl)
        · cases hstep with
          | program _ hprogram => exact mutex_of_access hprogram (.inr rfl)
      rw [hfree] at hheld
      cases hheld

theorem Reports.leave {s : Restartable R Unit} {call : MainCall} (h : Reports ⟨.within call, s⟩)
    (hreturned : call.HasReturned s) : Reports ⟨call.next, s⟩ := by
  cases call with
  | state =>
      rcases h with ⟨hplace, -, -⟩ | ⟨-, hreporting⟩ | ⟨-, hreported⟩
      · exact absurd rfl hplace
      · have hmutex : s.controller.stateMutex = some () := hreporting.mutex
        rw [show s.controller.stateMutex = none from hreturned] at hmutex
        cases hmutex
      · exact .inr (.inr ⟨.inr rfl, hreported⟩)
  | start | run | stop =>
      rcases h with ⟨-, -, hnone⟩ | ⟨hplace, -⟩ | ⟨hplace | hplace, -⟩
      · exact .inl ⟨by simp [MainCall.next], by simp [MainCall.next], hnone⟩
      all_goals cases hplace

/-- Before the call of `state` nothing has been reported. -/
theorem Reports.none (h : m.Reports) (hwithin : m.place ≠ .within .state)
    (hreturned : m.place ≠ .returned) : m.system.controller.reports = [] := by
  rcases h with ⟨-, -, hnone⟩ | ⟨hplace, -⟩ | ⟨hplace | hplace, -⟩
  · exact hnone
  · exact absurd hplace hwithin
  · exact absurd hplace hwithin
  · exact absurd hplace hreturned

theorem Reports.step (h : m.Reports) (hm : m.Reached n) (hn : 0 < n)
    (hstep : Step n m event m') : m'.Reports := by
  have hm' : m'.Reached n := hm.step hstep
  cases hstep with
  | background hback hstep => exact h.background hm hm' hn hback hstep
  | prepare hstep | transmit _ hstep =>
      have hnone := h.none (by simp) (by simp)
      exact .inl ⟨by simp, by simp,
        (reports_kept hm.aligned hstep (by simp [RestartableEvent.event])).trans hnone⟩
  | @enter _ _ call hstep =>
      have hnone := h.none (by simp) (by simp)
      cases call with
      | state => exact .inr (.inl ⟨rfl, .of_enter hm hn hnone hstep⟩)
      | start | run | stop =>
          exact .inl ⟨by simp, by simp, (reports_kept hm.aligned hstep
            (by simp [MainCall.entry, RestartableEvent.event])).trans hnone⟩
  | @within _ _ call visible hcontinues hstep =>
      by_cases hcall : call = .state
      · subst hcall
        exact h.withinState hm hm' hn hcontinues hstep
      · have hnone := h.none (by simpa using hcall) (by simp)
        refine .inl ⟨by simpa using hcall, by simp, (reports_kept hm.aligned hstep ?_).trans hnone⟩
        rcases MainCall.continues_cases hcontinues with
          ⟨-, t, rfl⟩ | ⟨-, access, -, rfl⟩ | ⟨hstate, -⟩
        · simp [RestartableEvent.event]
        · simp [RestartableEvent.event]
        · exact absurd hstate hcall
  | leave hreturned => exact h.leave hreturned
  | poll _ => exact h
  | polled _ => exact .inl ⟨by simp, by simp, h.none (by simp) (by simp)⟩

theorem Reached.reports (h : m.Reached n) (hn : 0 < n) : m.Reports := by
  refine h.invariant_of_reachable Reports ?_ fun _ _ _ hm hs hstep => hs.step hm hn hstep
  rintro start rfl
  exact .inl ⟨by simp [initial], by simp [initial], rfl⟩

end Report

/-! ## The call of `stop` -/

section Stop

/-- A call that will not raise `running_`, nor has to lower it. -/
def isPastStore : CallStage → Bool
  | .outside | .testing | .entering | .joining _ => true
  | _ => false

/-- `running_` is false and stays so. -/
structure Halted (communication : CommunicationLifecycle Unit) : Prop where
  running : communication.members.running = false
  past : isPastStore (communication.callers ()) = true

/-- Whether `stop` has returned. -/
def hasStopped : MainPlace → Bool
  | .calling .state | .within .state | .returned => true
  | _ => false

/-- The access of `stop` that stores false, and those after it. -/
theorem Halted.proceed {t : Unit} {communication communication' : CommunicationLifecycle Unit}
    (h : communication.callers () = .storing ∨ Halted communication)
    (hproceed : communication.proceed t = some communication') : Halted communication' := by
  obtain ⟨m, stage, hadvances, rfl⟩ := CommunicationLifecycle.proceed_cases hproceed
  have hlater : m.running = false ∧ isPastStore stage = true := by
    rcases h with hstoring | ⟨hrunning, hpast⟩
    · rw [show communication.callers t = .storing from hstoring] at hadvances
      cases hadvances with
      | store => exact ⟨rfl, rfl⟩
    · have hstage : isPastStore (communication.callers t) = true := hpast
      cases hcaller : communication.callers t with
      | outside | testing | entering | joining worker =>
          rw [hcaller] at hadvances
          cases hadvances <;> exact ⟨hrunning, rfl⟩
      | _ =>
          rw [hcaller] at hstage
          cases hstage
  have hcaller : Function.update communication.callers t stage t = stage := Function.update_self ..
  exact ⟨hlater.1, (congrArg isPastStore hcaller).trans hlater.2⟩

variable {s s' : Restartable R Unit} {visible : RestartableEvent R Unit}

/-- Only the calls of `start` and `stop` change `running_`. -/
theorem communication_of_step (hstep : s.Step visible s')
    (hcall : ∀ access, visible ≠ .call access) :
    s'.communication.members.running = s.communication.members.running ∧
      s'.communication.callers = s.communication.callers := by
  have hwork : ∀ {i : Nat} {decoded : Bool} {communication : CommunicationLifecycle Unit},
      CommunicationLifecycle.Step s.communication (.work i decoded) communication →
        communication.members.running = s.communication.members.running ∧
          communication.callers = s.communication.callers := by
    intro i decoded communication hwork
    obtain ⟨members, hmembers, rfl⟩ := Option.map_eq_some_iff.mp hwork
    obtain ⟨before, after, -, -, rfl⟩ := CommunicationMembers.work_cases hmembers
    exact ⟨rfl, rfl⟩
  cases hstep with
  | program _ _ | within _ _ _ _ => exact ⟨rfl, rfl⟩
  | call _ _ => exact absurd rfl (hcall _)
  | loop _ hstep | published _ _ hstep | complete _ _ _ _ hstep => exact hwork hstep

/-- How far the communication has been stopped when `main` is at its place. -/
structure Stops (m : MainProgram R) : Prop where
  within : m.place = .within .stop → m.system.communication.callers () = .storing ∨
    Halted m.system.communication
  stopped : hasStopped m.place = true → m.system.communication.members.running = false ∧
    m.system.communication.callers () = .outside

/-- A step that is not part of `start` or `stop`. -/
theorem Stops.aside {place place' : MainPlace} (h : Stops ⟨place, s⟩)
    (hstep : s.Step visible s') (hcall : ∀ access, visible ≠ .call access)
    (hwithin : place' = .within .stop → place = .within .stop)
    (hstopped : hasStopped place' = true → hasStopped place = true) : Stops ⟨place', s'⟩ := by
  obtain ⟨hrunning, hcallers⟩ := communication_of_step hstep hcall
  refine ⟨fun hplace => ?_, fun hplace => ?_⟩
  · rcases h.within (hwithin hplace) with hstoring | ⟨hlow, hpast⟩
    · exact .inl ((congrFun hcallers ()).trans hstoring)
    · exact .inr ⟨hrunning.trans hlow, (congrArg isPastStore (congrFun hcallers ())).trans hpast⟩
  · obtain ⟨hlow, houtside⟩ := h.stopped (hstopped hplace)
    exact ⟨hrunning.trans hlow, (congrFun hcallers ()).trans houtside⟩

/-- The steps of `stop`. -/
theorem Stops.withinStop (h : Stops ⟨.within .stop, s⟩)
    (hcontinues : MainCall.stop.continues visible = true) (hstep : s.Step visible s') :
    Stops ⟨.within .stop, s'⟩ := by
  rcases MainCall.continues_cases hcontinues with ⟨-, t, rfl⟩ | ⟨hcall, -⟩ | ⟨hcall, -⟩
  · cases hstep with
    | call _ hseparate =>
        exact ⟨fun _ => .inr (Halted.proceed (h.within rfl) hseparate.1),
          fun hplace => by cases hplace⟩
  · cases hcall
  · cases hcall

theorem Stops.enterStop (hstep : s.Step (.call (.stop ())) s') : Stops ⟨.within .stop, s'⟩ := by
  cases hstep with
  | call _ hseparate =>
      obtain ⟨-, rfl⟩ := CommunicationLifecycle.call_cases hseparate.1
      have hcaller : Function.update s.communication.callers () .storing () = .storing :=
        Function.update_self ..
      exact ⟨fun _ => .inl hcaller, fun hplace => by cases hplace⟩

omit [Double R] [IntConversion R] in
/-- At a place before `stop` there is nothing to say. -/
theorem stops_before {place : MainPlace} (hwithin : place ≠ .within .stop)
    (hstopped : hasStopped place = false) : Stops ⟨place, s⟩ :=
  ⟨fun hplace => absurd hplace hwithin, fun hplace => by rw [hstopped] at hplace; cases hplace⟩

theorem Stops.step (h : m.Stops) (hstep : Step n m event m') : m'.Stops := by
  cases hstep with
  | background hback hstep =>
      refine h.aside hstep ?_ id id
      rintro access rfl
      cases hback
  | prepare _ | transmit _ _ | poll _ | polled _ => exact stops_before (by simp) rfl
  | @enter _ _ call hstep =>
      cases call with
      | start | run => exact stops_before (by simp) rfl
      | stop => exact .enterStop hstep
      | state => exact h.aside hstep (by simp [MainCall.entry]) (by simp) fun _ => rfl
  | @within _ _ call visible hcontinues hstep =>
      cases call with
      | start | run => exact stops_before (by simp) rfl
      | stop => exact h.withinStop hcontinues hstep
      | state =>
          refine h.aside hstep ?_ id id
          rintro access rfl
          cases hcontinues
  | @leave _ call hreturned =>
      cases call with
      | start | run => exact stops_before (by simp [MainCall.next]) rfl
      | stop =>
          refine ⟨by simp [MainCall.next], fun _ => ⟨?_, hreturned⟩⟩
          rcases h.within rfl with hstoring | hhalted
          · rw [hreturned] at hstoring
            cases hstoring
          · exact hhalted.running
      | state => exact ⟨by simp [MainCall.next], fun _ => h.stopped rfl⟩

theorem Reached.stops (h : m.Reached n) : m.Stops :=
  h.invariant Stops (by rintro start rfl; exact stops_before (by simp) rfl)
    fun _ _ _ hs hstep => hs.step hstep

/-- Once `stop` has returned the communication is over. -/
theorem Reached.not_live (h : m.Reached n) (hstopped : hasStopped m.place = true) (i : Nat) :
    ¬ m.system.communication.members.Live i := by
  obtain ⟨hrunning, houtside⟩ := h.stops.stopped hstopped
  rcases h.aligned.separate.consistent.phase with hsettled | ⟨t, hlaunching⟩
  · refine hsettled.stopped hrunning (fun t => ?_) i
    rw [show m.system.communication.callers t = .outside from houtside]
    rfl
  · rw [hlaunching.running] at hrunning
    cases hrunning

end Stop

/-! ## What the cycles have read -/

section Reads

omit [IntConversion R] in
theorem target_prepared : Controller.target (prepared R).robot =
    (JointCommand.default : JointCommand R).targetPosition := by
  have hkept : ∀ joint : Joint R (Fin jointCount),
      (joint.initializePosition ⟨literal 0⟩).2.targetPosition = joint.targetPosition := by
    intro joint
    unfold Joint.initializePosition
    split <;> rfl
  exact hkept ((Robot.initial : Robot R).joints 0)

omit [Double R] [IntConversion R] in
theorem commandReads_eq (steerings : List (Steering R)) :
    ((steerings.filter fun steering => steering.read.1).map fun steering => steering.read.2) =
      (steerings.map fun steering => ControlLoop.outcome steering.read).filterMap id := by
  induction steerings with
  | nil => rfl
  | cons steering rest ih =>
      cases hok : steering.read.1 with
      | true => simp [hok, ControlLoop.outcome, ih]
      | false => simp [hok, ControlLoop.outcome, ih]

theorem valid_of_encode {command : JointCommand R} {frame : CanFrame}
    (h : JointCommandCodec.encode command = some frame) : JointCommandCodec.Valid frame := by
  obtain ⟨centidegrees, -, h⟩ := Option.bind_eq_some_iff.mp h
  obtain rfl := Option.some.inj h
  exact ⟨rfl, rfl⟩

variable {frame : CanFrame} {c : Controller R Unit}

/-- With one command sent, cycles read the initial one for a while, and then the other. -/
theorem reads_switch (hc : c.Reached) (hvalid : JointCommandCodec.Valid frame)
    (hsent : c.traffic.external = [frame]) :
    ∃ k l, c.outcomes.filterMap id =
      List.replicate k JointCommand.default ++
        List.replicate l (JointCommandCodec.decoded frame) := by
  obtain ⟨hpublished, ⟨last, hascending, -⟩, -⟩ := hc.delivered
  have hreceived : (commandsOf c.traffic.received : List (JointCommand R)) <+:
      [JointCommandCodec.decoded frame] := by
    rw [← commandsOf_of_valid hvalid, ← hsent, ← hc.traffic.commandsOf_stream, Traffic.stream,
      commandsOf_append]
    exact List.prefix_append _ _
  have hhistory : c.commands.history <+:
      [JointCommand.default, JointCommandCodec.decoded frame] := by
    rw [hpublished]
    exact (List.prefix_cons_inj _).mpr hreceived
  obtain ⟨k, l, hreads⟩ := (hascending.mono hhistory le_rfl).switch
  refine ⟨k, l, ?_⟩
  rw [← hreads, Controller.outcomes, ← commandReads_eq, Controller.commandReads, List.map_map]
  rfl

/-- The robot has been led by the initial command for a while, and then by the other. -/
theorem Polled.trajectory (h : Polled n c) (hvalid : JointCommandCodec.Valid frame)
    (hsent : c.traffic.external = [frame]) :
    ∃ k l : Nat, (k : Int) + l = n ∧ c.robot = ControlLoop.trajectory (prepared R).robot
      (List.replicate k (some JointCommand.default) ++
        List.replicate l (some (JointCommandCodec.decoded frame))) := by
  obtain ⟨cycles, since, hlength, hfollows⟩ := h.follows
  have houtcomes : c.outcomes = since := hfollows.outcomes
  obtain ⟨successes, fresh, hreads⟩ := reads_switch h.done.reached hvalid hsent
  rw [houtcomes] at hreads
  obtain ⟨k, l, hheld⟩ := ControlLoop.held_switch hreads
  have htotal := congrArg List.length hheld
  rw [ControlLoop.length_held, List.length_append, List.length_replicate,
    List.length_replicate] at htotal
  refine ⟨k, l, by omega, ?_⟩
  rw [hfollows.robot, ControlLoop.trajectory_held since target_prepared, hheld, List.map_append,
    List.map_replicate, List.map_replicate]

end Reads

/-- Beyond `transmit` there is a frame. -/
theorem Reached.exists_frame (h : m.Reached n) :
    m.place = .initializing ∨ m.place = .transmitting ∨
      ∃ frame, JointCommandCodec.encode (outgoingCommand R) = some frame := by
  refine h.invariant (fun m => m.place = .initializing ∨ m.place = .transmitting ∨
    ∃ frame, JointCommandCodec.encode (outgoingCommand R) = some frame) ?_
    fun _ _ _ hs hstep => ?_
  · rintro start rfl
    exact .inl rfl
  · cases hstep with
    | background _ _ => exact hs
    | prepare _ => exact .inr (.inl rfl)
    | transmit hencode _ => exact .inr (.inr ⟨_, hencode⟩)
    | enter _ | within _ _ | leave _ | poll _ | polled _ =>
        rcases hs with hplace | hplace | hframe
        · cases hplace
        · cases hplace
        · exact .inr (.inr hframe)

/-- What `main` reports, whatever the threads do.  Once it has returned, every one of the
cycles asked for has been counted, the communication threads have ended, and there is one
report of the state of the robot, whose read has succeeded: that state is where the
cycles have led the robot, as many as asked for, the first of them holding the initial
target and the rest the command that was sent over the bus. -/
theorem main_reports (hn : 0 < n) (h : m.Reached n) (hreturned : m.place = .returned) :
    m.system.controller.loop.completedCycles = n ∧
      (∀ i, ¬ m.system.communication.members.Live i) ∧
      ∃ (frame : CanFrame) (k l since : Nat),
        JointCommandCodec.encode (outgoingCommand R) = some frame ∧ (k : Int) + l = n ∧
        m.system.controller.reports = [⟨since, true,
          (ControlLoop.trajectory (Robot.initial.apply (initialization R)).2
            (List.replicate k (some JointCommand.default) ++
              List.replicate l (some (JointCommandCodec.decoded frame)))).state⟩] := by
  have hpolled := h.polled hn (by rw [hreturned]; rfl)
  refine ⟨?_, h.not_live (by rw [hreturned]; rfl), ?_⟩
  · rw [h.controller.completedCycles_eq, hpolled.done.measured_eq, ← Lifecycle.sum_acceptedRuns,
      hpolled.runs, List.sum_singleton]
  · obtain ⟨frame, hencode⟩ : ∃ frame,
        JointCommandCodec.encode (outgoingCommand R) = some frame := by
      rcases h.exists_frame with hplace | hplace | hframe
      · rw [hreturned] at hplace
        cases hplace
      · rw [hreturned] at hplace
        cases hplace
      · exact hframe
    have hsent : m.system.controller.traffic.external = [frame] := by
      rcases h.underway with ⟨hplace, -⟩ | ⟨-, hrunning⟩
      · rw [hreturned] at hplace
        cases hplace
      · rw [hrunning.sent, hreturned]
        exact congrArg Option.toList hencode
    obtain ⟨k, l, htotal, hrobot⟩ := hpolled.trajectory (valid_of_encode hencode) hsent
    have hreported : Reported m.system.controller := by
      rcases h.reports hn with ⟨-, hplace, -⟩ | ⟨hplace, -⟩ | ⟨-, hreported⟩
      · exact absurd hreturned hplace
      · rw [hreturned] at hplace
        cases hplace
      · exact hreported
    obtain ⟨since, hreports⟩ := hreported.reports
    exact ⟨frame, k, l, since, hencode, htotal, hrobot ▸ hreports⟩

/-! ## Schedules -/

section Moves

/-- The steps after `transmit`. -/
inductive MainMove (R : Type) where
  | background (event : RestartableEvent R Unit)
  | enter
  | within (event : RestartableEvent R Unit)
  | leave
  | polled

/-- What a step leads to, when it is possible. -/
def advance (n : Int) (m : MainProgram R) (move : MainMove R) : Option (MainProgram R) :=
  match move, m.place with
  | .background event, place =>
      if event.isBackground = true then
        (m.system.next event).map fun system => ⟨place, system⟩
      else none
  | .enter, .calling call =>
      (m.system.next (call.entry n)).map fun system => ⟨.within call, system⟩
  | .within event, .within call =>
      if call.continues event = true then
        (m.system.next event).map fun system => ⟨.within call, system⟩
      else none
  | .leave, .within call =>
      if call.HasReturned m.system then some ⟨call.next, m.system⟩ else none
  | .polled, .polling =>
      if n ≤ m.system.controller.loop.completedCycles then some ⟨.calling .stop, m.system⟩
      else none
  | _, _ => none

theorem Reached.advance {move : MainMove R} (h : m.Reached n)
    (hmove : m.advance n move = some m') : m'.Reached n := by
  obtain ⟨place, s⟩ := m
  cases move with
  | background event =>
      obtain ⟨hback, hmove⟩ := Option.ite_none_right_eq_some.mp hmove
      obtain ⟨s', hstep, rfl⟩ := Option.map_eq_some_iff.mp hmove
      exact h.step (.background hback (Restartable.step_of_next hstep))
  | enter =>
      cases place with
      | calling call =>
          obtain ⟨s', hstep, rfl⟩ := Option.map_eq_some_iff.mp hmove
          exact h.step (.enter (Restartable.step_of_next hstep))
      | _ => cases hmove
  | within event =>
      cases place with
      | within call =>
          obtain ⟨hcontinues, hmove⟩ := Option.ite_none_right_eq_some.mp hmove
          obtain ⟨s', hstep, rfl⟩ := Option.map_eq_some_iff.mp hmove
          exact h.step (.within hcontinues (Restartable.step_of_next hstep))
      | _ => cases hmove
  | leave =>
      cases place with
      | within call =>
          obtain ⟨hreturned, hmove⟩ := Option.ite_none_right_eq_some.mp hmove
          obtain rfl := Option.some.inj hmove
          exact h.step (.leave hreturned)
      | _ => cases hmove
  | polled =>
      cases place with
      | polling =>
          obtain ⟨hall, hmove⟩ := Option.ite_none_right_eq_some.mp hmove
          obtain rfl := Option.some.inj hmove
          exact h.step (.polled hall)
      | _ => cases hmove

theorem Reached.moves (moves : List (MainMove R)) :
    ∀ {m m' : MainProgram R}, m.Reached n → moves.foldlM (MainProgram.advance n) m = some m' →
      m'.Reached n := by
  induction moves with
  | nil =>
      intro m m' h hmoves
      obtain rfl := Option.some.inj hmoves
      exact h
  | cons move rest ih =>
      intro m m' h hmoves
      rw [List.foldlM_cons] at hmoves
      obtain ⟨mid, hmove, hrest⟩ := Option.bind_eq_some_iff.mp hmoves
      exact ih (h.advance hmove) hrest

end Moves

end Machine

/-! ## One cycle -/

section OneCycle

/-- The communication thread receives the command and samples the state. -/
def beginIteration : List (RestartableEvent ℚ Unit) :=
  List.flatten [[.loop 0, .iterate 0 .receive], List.replicate 3 (.iterate 0 .writeCommand),
    [.published 0, .iterate 0 .sample], List.replicate 4 (.iterate 0 .accessState)]

/-- The worker makes one cycle. -/
def oneCycle : List (ControllerEvent ℚ Unit) :=
  List.flatten [List.replicate 3 (.lifecycle (.work 0)), [.beginCycle 0],
    List.replicate 3 .accessCommand, [.steer, .publishState], List.replicate 4 .writeState,
    [.publishSnapshot], List.replicate 14 .writeSnapshot, [.endCycle 0]]

/-- `communication.start()`. -/
def startCommunication : List (MainMove ℚ) :=
  List.flatten [[.enter], List.replicate 3 (.within (.call (.proceed ()))), [.leave],
    beginIteration.map .background]

/-- A run of one cycle, up to the end of the poll. -/
def runAndPoll : List (MainMove ℚ) :=
  List.flatten [[.enter, .within (.program (.lifecycle (.acquire ())))],
    List.replicate 5 (.within (.program (.lifecycle (.proceed ())))),
    [.within (.program (.lifecycle (.release ()))), .leave],
    oneCycle.map fun event => .background (.program event), [.polled]]

/-- `communication.stop()` and `control_loop.state()`. -/
def stopAndReport : List (MainMove ℚ) :=
  List.flatten [[.background (.loop 0), .enter], List.replicate 3 (.within (.call (.proceed ()))),
    [.background (.loop 0), .within (.call (.proceed ())), .leave, .enter],
    List.replicate 14 (.within (.program (.accessSnapshot ()))),
    [.within (.program (.returnState ())), .leave]]

theorem encode_outgoing :
    JointCommandCodec.encode (outgoingCommand ℚ) = some Controller.ninety :=
  JointCommandCodec.encode_of_word (by norm_num [outgoingCommand, toInt32, truncate]; rfl)

theorem decoded_ninety :
    JointCommandCodec.decoded Controller.ninety = (⟨⟨90⟩⟩ : JointCommand ℚ) := by
  have hword : Controller.ninety.word 0 = 9000 := JointCommandCodec.word_commandFrame _
  have hvalue : (9000 : BitVec 32).toInt = 9000 := rfl
  norm_num [JointCommandCodec.decoded, hword, ofInt32, IntConversion.ofInt, hvalue]

/-- The program with the robot initialized, around a bus. -/
def withTraffic (traffic : Traffic) : Restartable ℚ Unit where
  controller := { prepared ℚ with traffic := traffic }
  communication := .initial
  places := fun _ => .receiving

/-- After `can.transmit(tx)`. -/
def sentTraffic : Traffic := Traffic.initial.transmitExternal Controller.ninety

theorem reached_sent : Reached 1 ⟨.calling .start, withTraffic sentTraffic⟩ := by
  have hfirst : Reached 1 (initial ℚ) := .init rfl
  have hprepare : (initial ℚ).system.Step (.program (.operate (initialization ℚ)))
      (withTraffic .initial) := .program rfl (.operate _ rfl)
  have hsend : (withTraffic .initial).Step (.program (.external Controller.ninety))
      (withTraffic sentTraffic) := .program rfl (.external _)
  exact (hfirst.step (.prepare hprepare)).step (.transmit encode_outgoing hsend)

/-- The worker of the loop comes to its end. -/
def endWorker : MainMove ℚ := .background (.program (.lifecycle (.work 0)))

/-- One cycle, after which `main` returns and the worker ends. -/
theorem exists_returned :
    ∃ m m' : MainProgram ℚ, m.Reached 1 ∧ m.place = .returned ∧
      m.advance 1 endWorker = some m' ∧ m'.place = .returned ∧
      m'.system.controller.loop.members.workers.map Worker.stage = [.ended] := by
  have hrun : ∃ (m₁ m₂ m₃ m₄ : MainProgram ℚ) (call : Call StateCell ℚ (JointState ℚ))
      (communication : CommunicationLifecycle Unit),
      startCommunication.foldlM (MainProgram.advance 1)
        ⟨.calling .start, withTraffic sentTraffic⟩ = some m₁ ∧
      (m₁.system.seenBy 0).link = .reading ∧
      (m₁.system.seenBy 0).canState.calls none = some call ∧
      call.result = some (true, JointState.default) ∧
      m₁.system.stage 0 = some .transmitting ∧
      m₁.system.communication.next (.work 0 m₁.system.controller.receivedCommand.isSome) =
        some communication ∧
      m₂ = ⟨m₁.place, Restartable.transmitted m₁.system communication⟩ ∧
      (runAndPoll ++ stopAndReport).foldlM (MainProgram.advance 1) m₂ = some m₃ ∧
      m₃.place = .returned ∧
      m₃.advance 1 endWorker = some m₄ ∧ m₄.place = .returned ∧
      m₄.system.controller.loop.members.workers.map Worker.stage = [.ended] :=
    ⟨_, _, _, _, _, _, rfl, rfl, rfl, rfl, rfl, rfl, rfl, rfl, rfl, rfl, rfl, rfl⟩
  obtain ⟨m₁, m₂, m₃, m₄, call, communication, hm₁, hlink, hcall, hread, hstage, hwork, rfl, hm₃,
    hreturned, hlater⟩ := hrun
  have hfirst := reached_sent.moves startCommunication hm₁
  have htransmit : m₁.system.Step (.iterate 0 .transmit)
      (Restartable.transmitted m₁.system communication) :=
    .complete hstage rfl rfl (.transmitState hlink hcall hread JointStateCodec.encode_default) hwork
  have hreached : m₃.Reached 1 :=
    Reached.moves (runAndPoll ++ stopAndReport) (hfirst.step (.background rfl htransmit)) hm₃
  exact ⟨m₃, m₄, hreached, hreturned, hlater⟩

theorem main_reports_once :
    ∃ (m : MainProgram ℚ) (k l since : Nat), m.Reached 1 ∧ m.place = .returned ∧
      (k : Int) + l = 1 ∧ m.system.controller.reports = [⟨since, true,
        (ControlLoop.trajectory (Robot.initial.apply (initialization ℚ)).2
          (List.replicate k (some JointCommand.default) ++
            List.replicate l (some ⟨⟨90⟩⟩))).state⟩] := by
  obtain ⟨m, -, hreached, hreturned, -⟩ := exists_returned
  obtain ⟨-, -, frame, k, l, since, hframe, htotal, hreports⟩ :=
    main_reports (by decide) hreached hreturned
  obtain rfl := Option.some.inj (hframe.symm.trans encode_outgoing)
  rw [decoded_ninety] at hreports
  exact ⟨m, k, l, since, hreached, hreturned, htotal, hreports⟩

end OneCycle

end MainProgram

end RobotController.System
