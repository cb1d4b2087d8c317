/-
  System/System.lean --- the whole program: robot, control loop, buffers, bus and
  callers.

  Sources: `control/ControlLoop.cpp` (`update`, `state`),
  `communication/CanCommunication.cpp` (`run`, `transmitState`).

  A step is one access of one thread to a shared variable, or one operation on the
  queue or on a mutex; what a thread does between two accesses goes with one of them.
  Each part of the state moves as its own machine does: the loop as in
  `Control/Lifecycle.lean`, the bus as in `Communication/CanCommunication.lean`, the
  buffers as clients of a sequence lock.
-/
import RobotController.Communication.CanCommunication
import RobotController.Control.Cycle
import RobotController.Control.LifecycleInvariant
import RobotController.Core.RobotRun
import RobotController.Foundation.SerialReads

set_option autoImplicit false

namespace RobotController.System

open RobotController.Foundation RobotController.Core RobotController.Communication
open RobotController.Control RobotController.Synchronization

/-! ## The state -/

/-- Where the worker is in `ControlLoop::update`. -/
inductive CyclePhase where
  | outside
  | readingCommand
  | steered
  | publishingState
  | publishingSnapshot
  deriving DecidableEq, Repr

/-- Where the communication thread is in an iteration of `CanCommunication::run`. -/
inductive LinkPhase where
  | receiving
  | publishing
  | sampling
  | reading
  deriving DecidableEq, Repr

/-- What a control cycle has done to joint 1: the publications completed when its
read began, the result of the read, and the target before and after. -/
structure Steering (R : Type) where
  since : Nat
  read : Bool × JointCommand R
  before : Angle R
  after : Angle R

/-- What a call of `ControlLoop::state` has returned, the publications completed when
it took the mutex, and whether its read succeeded. -/
structure Report (R : Type) where
  since : Nat
  ok : Bool
  state : RobotState R

/-- The program: the robot, and whether it has been operated on from outside since
the last control cycle; the control loop, its place in `update` and its buffers; the
bus and the communication thread; `state_mutex_` and `last_state_`; and what the
cycles and the callers of `state` have seen.  The worker alone reads commands, the
holder of `state_mutex_` alone reads snapshots, and the state of joint 1 is read by
the communication thread and by others. -/
structure Controller (R τ : Type) where
  robot : Robot R
  touched : Bool
  loop : Lifecycle τ
  cycle : CyclePhase
  commands : SharedBuffer CommandCell R (JointCommand R) Unit
  canState : SharedBuffer StateCell R (JointState R) (Option τ)
  snapshot : SharedBuffer SnapshotCell R (RobotState R) Unit
  traffic : Traffic
  link : LinkPhase
  stateMutex : Option τ
  lastState : RobotState R
  steerings : List (Steering R)
  reports : List (Report R)

/-- What may happen. -/
inductive ControllerEvent (R τ : Type) where
  /-- a step of the loop other than the end of an update -/
  | lifecycle (event : LifecycleEvent τ)
  /-- an operation on the robot while no worker is alive -/
  | operate (operation : RobotOperation R)
  -- the worker, in `update`
  | beginCycle (i : Nat)
  | accessCommand
  | steer
  | publishState
  | writeState
  | publishSnapshot
  | writeSnapshot
  | endCycle (i : Nat)
  -- the bus and the communication thread
  | external (frame : CanFrame)
  | receive
  | writeCommand
  | sample
  | accessState
  | transmit
  -- callers of `ControlLoop::state` and of `CanStateBuffer::read`
  | lockState (t : τ)
  | accessSnapshot (t : τ)
  | returnState (t : τ)
  | readCanState (t : τ) (given : JointState R)
  | accessCanState (t : τ)

/-- Whether an event operates on the robot. -/
def ControllerEvent.isRobotOperation {R τ : Type} : ControllerEvent R τ → Bool
  | .operate _ => true
  | .steer => true
  | _ => false

/-- Whether an event of the loop ends an update. -/
def endsUpdate {τ : Type} (loop : Lifecycle τ) : LifecycleEvent τ → Bool
  | .work i => loop.members.isUpdating i
  | _ => false

namespace Controller

variable {R τ : Type} [Double R]

/-- New buffers and a new loop around a robot. -/
def initial (robot : Robot R) : Controller R τ where
  robot := robot
  touched := false
  loop := .initial
  cycle := .outside
  commands := SharedBuffer.initial CanCommandBuffer.memory JointCommand.default
  canState := SharedBuffer.initial CanStateBuffer.memory JointState.default
  snapshot := SnapshotBuffer.initial
  traffic := .initial
  link := .receiving
  stateMutex := none
  lastState := RobotState.default
  steerings := []
  reports := []

/-- The target of joint 1. -/
def target (robot : Robot R) : Angle R := (robot.joints 0).targetPosition

/-- The middle of `update`: steer joint 1 and advance the robot. -/
def steer (s : Controller R τ) (since : Nat) (read : Bool × JointCommand R) :
    Controller R τ :=
  let robot := (ControlLoop.steer read s.robot).update ControlLoop.dt
  { s with
    robot := robot
    touched := false
    cycle := .steered
    steerings := s.steerings ++ [⟨since, read, target s.robot, target robot⟩] }

/-- The end of `state`: a failed read keeps the last known state. -/
def returnState (s : Controller R τ) (since : Nat) (read : Bool × RobotState R) :
    Controller R τ :=
  let state := if read.1 then read.2 else s.lastState
  { s with
    lastState := state
    stateMutex := none
    reports := s.reports ++ [⟨since, read.1, state⟩] }

variable [IntConversion R]

/-- What the communication thread takes the next frame for. -/
def receivedCommand (s : Controller R τ) : Option (JointCommand R) := do
  let frame ← s.traffic.receive.1
  let decoded := JointCommandCodec.decode frame JointCommand.default
  if decoded.1 then some decoded.2 else none

variable [DecidableEq τ]

/-- The steps of the program. -/
inductive Step : Controller R τ → ControllerEvent R τ → Controller R τ → Prop where
  | lifecycle {s : Controller R τ} {event : LifecycleEvent τ} {loop : Lifecycle τ} :
      endsUpdate s.loop event = false → Lifecycle.Step s.loop event loop →
      Step s (.lifecycle event) { s with loop := loop }
  | operate {s : Controller R τ} (operation : RobotOperation R) :
      s.loop.members.allJoined = true →
      Step s (.operate operation)
        { s with robot := (s.robot.apply operation).2, touched := true }
  | beginCycle {s : Controller R τ} {i : Nat}
      {commands : SharedBuffer CommandCell R (JointCommand R) Unit} :
      s.cycle = .outside → s.loop.members.isUpdating i = true →
      SharedBuffer.Step CanCommandBuffer.buffer s.commands (.read () JointCommand.default)
        commands →
      Step s (.beginCycle i) { s with cycle := .readingCommand, commands := commands }
  | accessCommand {s : Controller R τ}
      {commands : SharedBuffer CommandCell R (JointCommand R) Unit} :
      s.cycle = .readingCommand →
      SharedBuffer.Step CanCommandBuffer.buffer s.commands (.access ()) commands →
      Step s .accessCommand { s with commands := commands }
  | steer {s : Controller R τ} {call : Call CommandCell R (JointCommand R)}
      {read : Bool × JointCommand R} :
      s.cycle = .readingCommand → s.commands.calls () = some call →
      call.result = some read →
      Step s .steer (s.steer call.since read)
  | publishState {s : Controller R τ}
      {canState : SharedBuffer StateCell R (JointState R) (Option τ)} :
      s.cycle = .steered →
      SharedBuffer.Step CanStateBuffer.buffer s.canState (.publish (s.robot.state 0))
        canState →
      Step s .publishState { s with cycle := .publishingState, canState := canState }
  | writeState {s : Controller R τ}
      {canState : SharedBuffer StateCell R (JointState R) (Option τ)} :
      s.cycle = .publishingState →
      SharedBuffer.Step CanStateBuffer.buffer s.canState .write canState →
      Step s .writeState { s with canState := canState }
  | publishSnapshot {s : Controller R τ}
      {snapshot : SharedBuffer SnapshotCell R (RobotState R) Unit} :
      s.cycle = .publishingState → s.canState.isIdle = true →
      SharedBuffer.Step SnapshotBuffer.buffer s.snapshot (.publish s.robot.state) snapshot →
      Step s .publishSnapshot { s with cycle := .publishingSnapshot, snapshot := snapshot }
  | writeSnapshot {s : Controller R τ}
      {snapshot : SharedBuffer SnapshotCell R (RobotState R) Unit} :
      s.cycle = .publishingSnapshot →
      SharedBuffer.Step SnapshotBuffer.buffer s.snapshot .write snapshot →
      Step s .writeSnapshot { s with snapshot := snapshot }
  -- beyond `INT_MAX` cycles `++measured_cycles_` is undefined
  | endCycle {s : Controller R τ} {i : Nat} {loop : Lifecycle τ} :
      s.cycle = .publishingSnapshot → s.snapshot.isIdle = true →
      s.loop.members.isUpdating i = true → s.loop.members.measuredCycles + 1 < 2 ^ 31 →
      Lifecycle.Step s.loop (.work i) loop →
      Step s (.endCycle i) { s with cycle := .outside, loop := loop }
  | external {s : Controller R τ} (frame : CanFrame) :
      Step s (.external frame) { s with traffic := s.traffic.transmitExternal frame }
  | receiveCommand {s : Controller R τ} {command : JointCommand R}
      {commands : SharedBuffer CommandCell R (JointCommand R) Unit} :
      s.link = .receiving → s.receivedCommand = some command →
      SharedBuffer.Step CanCommandBuffer.buffer s.commands (.publish command) commands →
      Step s .receive
        { s with traffic := s.traffic.receive.2, link := .publishing, commands := commands }
  | receiveOther {s : Controller R τ} :
      s.link = .receiving → s.receivedCommand = none →
      Step s .receive { s with traffic := s.traffic.receive.2, link := .sampling }
  | writeCommand {s : Controller R τ}
      {commands : SharedBuffer CommandCell R (JointCommand R) Unit} :
      s.link = .publishing →
      SharedBuffer.Step CanCommandBuffer.buffer s.commands .write commands →
      Step s .writeCommand { s with commands := commands }
  | sample {s : Controller R τ}
      {canState : SharedBuffer StateCell R (JointState R) (Option τ)} :
      s.link = .sampling ∨ s.link = .publishing ∧ s.commands.isIdle = true →
      SharedBuffer.Step CanStateBuffer.buffer s.canState (.read none JointState.default)
        canState →
      Step s .sample { s with link := .reading, canState := canState }
  | accessState {s : Controller R τ}
      {canState : SharedBuffer StateCell R (JointState R) (Option τ)} :
      s.link = .reading →
      SharedBuffer.Step CanStateBuffer.buffer s.canState (.access none) canState →
      Step s .accessState { s with canState := canState }
  | transmitState {s : Controller R τ} {call : Call StateCell R (JointState R)}
      {state : JointState R} {frame : CanFrame} :
      s.link = .reading → s.canState.calls none = some call →
      call.result = some (true, state) → JointStateCodec.encode state = some frame →
      Step s .transmit
        { s with traffic := s.traffic.finish (some frame), link := .receiving }
  | transmitNothing {s : Controller R τ} {call : Call StateCell R (JointState R)}
      {state : JointState R} :
      s.link = .reading → s.canState.calls none = some call →
      call.result = some (false, state) →
      Step s .transmit { s with traffic := s.traffic.finish none, link := .receiving }
  | lockState {s : Controller R τ} {t : τ}
      {snapshot : SharedBuffer SnapshotCell R (RobotState R) Unit} :
      s.stateMutex = none →
      SharedBuffer.Step SnapshotBuffer.buffer s.snapshot (.read () s.lastState) snapshot →
      Step s (.lockState t) { s with stateMutex := some t, snapshot := snapshot }
  | accessSnapshot {s : Controller R τ} {t : τ}
      {snapshot : SharedBuffer SnapshotCell R (RobotState R) Unit} :
      s.stateMutex = some t →
      SharedBuffer.Step SnapshotBuffer.buffer s.snapshot (.access ()) snapshot →
      Step s (.accessSnapshot t) { s with snapshot := snapshot }
  | returnState {s : Controller R τ} {t : τ} {call : Call SnapshotCell R (RobotState R)}
      {read : Bool × RobotState R} :
      s.stateMutex = some t → s.snapshot.calls () = some call →
      call.result = some read →
      Step s (.returnState t) (s.returnState call.since read)
  | readCanState {s : Controller R τ} {t : τ} {given : JointState R}
      {canState : SharedBuffer StateCell R (JointState R) (Option τ)} :
      SharedBuffer.Step CanStateBuffer.buffer s.canState (.read (some t) given) canState →
      Step s (.readCanState t given) { s with canState := canState }
  | accessCanState {s : Controller R τ} {t : τ}
      {canState : SharedBuffer StateCell R (JointState R) (Option τ)} :
      SharedBuffer.Step CanStateBuffer.buffer s.canState (.access (some t)) canState →
      Step s (.accessCanState t) { s with canState := canState }

/-- The states some interleaving reaches, whatever the robot was at first. -/
def Reached (s : Controller R τ) : Prop :=
  Reachable (fun start => ∃ robot, start = initial robot) Step s

/-! ## Schedules -/

/-- What an event leads to, when it is possible. -/
def next (s : Controller R τ) : ControllerEvent R τ → Option (Controller R τ)
  | .lifecycle event =>
      if endsUpdate s.loop event = false then
        (s.loop.next event).map fun loop => { s with loop := loop }
      else none
  | .operate operation =>
      if s.loop.members.allJoined = true then
        some { s with robot := (s.robot.apply operation).2, touched := true }
      else none
  | .beginCycle i =>
      if s.cycle = .outside ∧ s.loop.members.isUpdating i = true then
        (s.commands.next CanCommandBuffer.buffer (.read () JointCommand.default)).map
          fun commands => { s with cycle := .readingCommand, commands := commands }
      else none
  | .accessCommand =>
      if s.cycle = .readingCommand then
        (s.commands.next CanCommandBuffer.buffer (.access ())).map
          fun commands => { s with commands := commands }
      else none
  | .steer =>
      if s.cycle = .readingCommand then do
        let call ← s.commands.calls ()
        let read ← call.result
        return s.steer call.since read
      else none
  | .publishState =>
      if s.cycle = .steered then
        (s.canState.next CanStateBuffer.buffer (.publish (s.robot.state 0))).map
          fun canState => { s with cycle := .publishingState, canState := canState }
      else none
  | .writeState =>
      if s.cycle = .publishingState then
        (s.canState.next CanStateBuffer.buffer .write).map
          fun canState => { s with canState := canState }
      else none
  | .publishSnapshot =>
      if s.cycle = .publishingState ∧ s.canState.isIdle = true then
        (s.snapshot.next SnapshotBuffer.buffer (.publish s.robot.state)).map
          fun snapshot => { s with cycle := .publishingSnapshot, snapshot := snapshot }
      else none
  | .writeSnapshot =>
      if s.cycle = .publishingSnapshot then
        (s.snapshot.next SnapshotBuffer.buffer .write).map
          fun snapshot => { s with snapshot := snapshot }
      else none
  | .endCycle i =>
      if s.cycle = .publishingSnapshot ∧ s.snapshot.isIdle = true ∧
          s.loop.members.isUpdating i = true ∧ s.loop.members.measuredCycles + 1 < 2 ^ 31 then
        (s.loop.next (.work i)).map fun loop => { s with cycle := .outside, loop := loop }
      else none
  | .external frame => some { s with traffic := s.traffic.transmitExternal frame }
  | .receive =>
      if s.link = .receiving then
        match s.receivedCommand with
        | some command =>
            (s.commands.next CanCommandBuffer.buffer (.publish command)).map fun commands =>
              { s with traffic := s.traffic.receive.2, link := .publishing, commands := commands }
        | none => some { s with traffic := s.traffic.receive.2, link := .sampling }
      else none
  | .writeCommand =>
      if s.link = .publishing then
        (s.commands.next CanCommandBuffer.buffer .write).map
          fun commands => { s with commands := commands }
      else none
  | .sample =>
      if s.link = .sampling ∨ s.link = .publishing ∧ s.commands.isIdle = true then
        (s.canState.next CanStateBuffer.buffer (.read none JointState.default)).map
          fun canState => { s with link := .reading, canState := canState }
      else none
  | .accessState =>
      if s.link = .reading then
        (s.canState.next CanStateBuffer.buffer (.access none)).map
          fun canState => { s with canState := canState }
      else none
  | .transmit =>
      if s.link = .reading then do
        let call ← s.canState.calls none
        match ← call.result with
        | (true, state) =>
            let frame ← JointStateCodec.encode state
            return { s with traffic := s.traffic.finish (some frame), link := .receiving }
        | (false, _) => return { s with traffic := s.traffic.finish none, link := .receiving }
      else none
  | .lockState t =>
      if s.stateMutex = none then
        (s.snapshot.next SnapshotBuffer.buffer (.read () s.lastState)).map
          fun snapshot => { s with stateMutex := some t, snapshot := snapshot }
      else none
  | .accessSnapshot t =>
      if s.stateMutex = some t then
        (s.snapshot.next SnapshotBuffer.buffer (.access ())).map
          fun snapshot => { s with snapshot := snapshot }
      else none
  | .returnState t =>
      if s.stateMutex = some t then do
        let call ← s.snapshot.calls ()
        let read ← call.result
        return s.returnState call.since read
      else none
  | .readCanState t given =>
      (s.canState.next CanStateBuffer.buffer (.read (some t) given)).map
        fun canState => { s with canState := canState }
  | .accessCanState t =>
      (s.canState.next CanStateBuffer.buffer (.access (some t))).map
        fun canState => { s with canState := canState }

theorem step_of_next {s s' : Controller R τ} {event : ControllerEvent R τ}
    (h : s.next event = some s') : Step s event s' := by
  cases event with
  | lifecycle event =>
      simp only [next] at h
      split_ifs at h with hends
      obtain ⟨loop, hloop, rfl⟩ := Option.map_eq_some_iff.mp h
      exact .lifecycle hends hloop
  | operate operation =>
      simp only [next] at h
      split_ifs at h with hjoined
      obtain rfl := Option.some.inj h
      exact .operate operation hjoined
  | beginCycle i =>
      simp only [next] at h
      split_ifs at h with hphase
      obtain ⟨commands, hbuffer, rfl⟩ := Option.map_eq_some_iff.mp h
      exact .beginCycle hphase.1 hphase.2 (SharedBuffer.step_of_next hbuffer)
  | accessCommand =>
      simp only [next] at h
      split_ifs at h with hphase
      obtain ⟨commands, hbuffer, rfl⟩ := Option.map_eq_some_iff.mp h
      exact .accessCommand hphase (SharedBuffer.step_of_next hbuffer)
  | steer =>
      simp only [next] at h
      split_ifs at h with hphase
      obtain ⟨call, hcall, h⟩ := Option.bind_eq_some_iff.mp h
      obtain ⟨read, hread, h⟩ := Option.bind_eq_some_iff.mp h
      obtain rfl := Option.some.inj h
      exact .steer hphase hcall hread
  | publishState =>
      simp only [next] at h
      split_ifs at h with hphase
      obtain ⟨canState, hbuffer, rfl⟩ := Option.map_eq_some_iff.mp h
      exact .publishState hphase (SharedBuffer.step_of_next hbuffer)
  | writeState =>
      simp only [next] at h
      split_ifs at h with hphase
      obtain ⟨canState, hbuffer, rfl⟩ := Option.map_eq_some_iff.mp h
      exact .writeState hphase (SharedBuffer.step_of_next hbuffer)
  | publishSnapshot =>
      simp only [next] at h
      split_ifs at h with hphase
      obtain ⟨snapshot, hbuffer, rfl⟩ := Option.map_eq_some_iff.mp h
      exact .publishSnapshot hphase.1 hphase.2 (SharedBuffer.step_of_next hbuffer)
  | writeSnapshot =>
      simp only [next] at h
      split_ifs at h with hphase
      obtain ⟨snapshot, hbuffer, rfl⟩ := Option.map_eq_some_iff.mp h
      exact .writeSnapshot hphase (SharedBuffer.step_of_next hbuffer)
  | endCycle i =>
      simp only [next] at h
      split_ifs at h with hphase
      obtain ⟨loop, hloop, rfl⟩ := Option.map_eq_some_iff.mp h
      exact .endCycle hphase.1 hphase.2.1 hphase.2.2.1 hphase.2.2.2 hloop
  | external frame =>
      obtain rfl := Option.some.inj h
      exact .external frame
  | receive =>
      simp only [next] at h
      split_ifs at h with hphase
      cases hcommand : s.receivedCommand with
      | none =>
          rw [hcommand] at h
          obtain rfl := Option.some.inj h
          exact .receiveOther hphase hcommand
      | some command =>
          rw [hcommand] at h
          obtain ⟨commands, hbuffer, rfl⟩ := Option.map_eq_some_iff.mp h
          exact .receiveCommand hphase hcommand (SharedBuffer.step_of_next hbuffer)
  | writeCommand =>
      simp only [next] at h
      split_ifs at h with hphase
      obtain ⟨commands, hbuffer, rfl⟩ := Option.map_eq_some_iff.mp h
      exact .writeCommand hphase (SharedBuffer.step_of_next hbuffer)
  | sample =>
      simp only [next] at h
      split_ifs at h with hphase
      obtain ⟨canState, hbuffer, rfl⟩ := Option.map_eq_some_iff.mp h
      exact .sample hphase (SharedBuffer.step_of_next hbuffer)
  | accessState =>
      simp only [next] at h
      split_ifs at h with hphase
      obtain ⟨canState, hbuffer, rfl⟩ := Option.map_eq_some_iff.mp h
      exact .accessState hphase (SharedBuffer.step_of_next hbuffer)
  | transmit =>
      simp only [next] at h
      split_ifs at h with hphase
      obtain ⟨call, hcall, h⟩ := Option.bind_eq_some_iff.mp h
      obtain ⟨⟨ok, state⟩, hread, h⟩ := Option.bind_eq_some_iff.mp h
      cases ok with
      | true =>
          obtain ⟨frame, hencode, h⟩ := Option.bind_eq_some_iff.mp h
          obtain rfl := Option.some.inj h
          exact .transmitState hphase hcall hread hencode
      | false =>
          obtain rfl := Option.some.inj h
          exact .transmitNothing hphase hcall hread
  | lockState t =>
      simp only [next] at h
      split_ifs at h with hmutex
      obtain ⟨snapshot, hbuffer, rfl⟩ := Option.map_eq_some_iff.mp h
      exact .lockState hmutex (SharedBuffer.step_of_next hbuffer)
  | accessSnapshot t =>
      simp only [next] at h
      split_ifs at h with hmutex
      obtain ⟨snapshot, hbuffer, rfl⟩ := Option.map_eq_some_iff.mp h
      exact .accessSnapshot hmutex (SharedBuffer.step_of_next hbuffer)
  | returnState t =>
      simp only [next] at h
      split_ifs at h with hmutex
      obtain ⟨call, hcall, h⟩ := Option.bind_eq_some_iff.mp h
      obtain ⟨read, hread, h⟩ := Option.bind_eq_some_iff.mp h
      obtain rfl := Option.some.inj h
      exact .returnState hmutex hcall hread
  | readCanState t given =>
      obtain ⟨canState, hbuffer, rfl⟩ := Option.map_eq_some_iff.mp h
      exact .readCanState (SharedBuffer.step_of_next hbuffer)
  | accessCanState t =>
      obtain ⟨canState, hbuffer, rfl⟩ := Option.map_eq_some_iff.mp h
      exact .accessCanState (SharedBuffer.step_of_next hbuffer)

/-- A schedule that can be followed leads to a state that is reached. -/
theorem reached_of_schedule (robot : Robot R) (events : List (ControllerEvent R τ))
    {s : Controller R τ} (h : events.foldlM next (initial robot) = some s) : s.Reached :=
  ⟨initial robot, events, ⟨robot, rfl⟩,
    Execution.of_schedule (fun _ _ _ => step_of_next) events h⟩

/-- A run for `n` cycles, up to the beginning of its first update. -/
def startEvents (t : τ) (n : Int) : List (ControllerEvent R τ) :=
  (Lifecycle.runEvents t n ++ Lifecycle.workEvents 3).map .lifecycle

/-- An update of the first worker, with nobody in between. -/
def updateEvents : List (ControllerEvent R τ) :=
  [.beginCycle 0] ++ List.replicate 3 .accessCommand ++ [.steer, .publishState] ++
    List.replicate 4 .writeState ++ [.publishSnapshot] ++ List.replicate 14 .writeSnapshot ++
    [.endCycle 0]

end Controller

end RobotController.System
