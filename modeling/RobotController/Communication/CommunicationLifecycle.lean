/-
  Communication/CommunicationLifecycle.lean --- starting and stopping the communication
  thread.

  Source: `communication/CanCommunication.cpp` (`start`, `stop`, `run`).

  Any number of threads call `start` and `stop`, with no lock around either, while the
  workers they have created go through their loop.  A step is one access of one thread to
  `running_` or to `thread_`, the creation of a thread, or one operation of a worker.  What
  the operations of a worker do to the buffers and to the bus is in
  `Communication/CanCommunication.lean` and `System/System.lean`.
-/
import RobotController.Foundation.Execution
import Mathlib.Logic.Function.Basic

set_option autoImplicit false

namespace RobotController.Communication

open RobotController.Foundation

/-! ## The worker -/

/-- The next operation of a thread in `CanCommunication::run`. -/
inductive RunStage where
  /-- `running_.load()`, at the head of the loop -/
  | checking
  | receiving
  | publishing
  | transmitting
  | sleeping
  | ended
  deriving DecidableEq, Repr

namespace RunStage

/-- What comes after an operation, given `running_` and whether `receive` gives a frame that
`JointCommandCodec::decode` accepts. -/
def next (running decoded : Bool) : RunStage → Option RunStage
  | .checking => some (if running then .receiving else .ended)
  | .receiving => some (if decoded then .publishing else .transmitting)
  | .publishing => some .transmitting
  | .transmitting => some .sleeping
  | .sleeping => some .checking
  | .ended => none

/-- How many operations are left at most, once `running_` is false. -/
def remaining : RunStage → Nat
  | .ended => 0
  | .checking => 1
  | .sleeping => 2
  | .transmitting => 3
  | .publishing => 4
  | .receiving => 5

variable {stage stage' : RunStage} {running decoded : Bool}

theorem ne_ended_of_next (h : stage.next running decoded = some stage') : stage ≠ .ended := by
  rintro rfl
  cases h

/-- While `running_` is true, no worker ends. -/
theorem next_ne_ended (h : stage.next true decoded = some stage') : stage' ≠ .ended := by
  rintro rfl
  cases stage <;> cases decoded <;> simp [next] at h

/-- Once `running_` is false, every operation is a step towards the end. -/
theorem remaining_next (h : stage.next false decoded = some stage') :
    1 + stage'.remaining ≤ stage.remaining := by
  cases stage <;> simp only [next, Option.some.injEq, reduceCtorEq] at h <;> subst h <;>
    cases decoded <;> decide

end RunStage

/-! ## The members -/

/-- `running_`, `thread_` as the number of the worker it is joinable with, and the workers
created so far. -/
structure CommunicationMembers where
  running : Bool
  thread : Option Nat
  workers : List RunStage
  deriving DecidableEq, Repr

/-- Where a thread is that calls `start` or `stop`. -/
inductive CallStage where
  | outside
  /-- `start`, at `running_.exchange(true)` -/
  | exchanging
  /-- `start`, at the constructor of the thread -/
  | creating
  /-- `start`, at the assignment of the new worker to `thread_` -/
  | assigning (worker : Nat)
  /-- the assignment, joining the worker `thread_` held -/
  | replacing (worker old : Nat)
  /-- `stop`, at `running_.store(false)` -/
  | storing
  /-- `stop`, at `thread_.joinable()` -/
  | testing
  /-- `stop`, at the call of `thread_.join()` -/
  | entering
  /-- `stop`, within `join` -/
  | joining (worker : Nat)
  deriving DecidableEq, Repr

namespace CallStage

/-- A `start` that has found `running_` false. -/
def isStarting : CallStage → Bool
  | .creating | .assigning _ | .replacing _ _ => true
  | _ => false

/-- A `stop` that has stored false. -/
def isStopping : CallStage → Bool
  | .testing | .entering | .joining _ => true
  | _ => false

/-- The worker a call waits for. -/
def awaited : CallStage → Option Nat
  | .replacing _ old => some old
  | .joining worker => some worker
  | _ => none

end CallStage

namespace CommunicationMembers

/-- A new `CanCommunication`. -/
def initial : CommunicationMembers := ⟨false, none, []⟩

/-- Worker `i` is executing `run`. -/
def Live (m : CommunicationMembers) (i : Nat) : Prop :=
  ∃ stage, m.workers[i]? = some stage ∧ stage ≠ .ended

/-- Worker `i` has returned from `run`. -/
def hasEnded (m : CommunicationMembers) (i : Nat) : Bool := m.workers[i]? == some .ended

/-- The operations worker `i` has left at most, once `running_` is false. -/
def remaining (m : CommunicationMembers) (i : Nat) : Nat :=
  (m.workers[i]?).elim 0 RunStage.remaining

/-- The next access within a call.  `join` waits for the thread to return, and throws when
there is none; assigning to a `std::jthread` that is joinable joins it first. -/
def advance (m : CommunicationMembers) : CallStage → Option (CommunicationMembers × CallStage)
  | .outside => none
  | .exchanging =>
      some ({ m with running := true }, if m.running then .outside else .creating)
  | .creating =>
      some ({ m with workers := m.workers ++ [.checking] }, .assigning m.workers.length)
  | .assigning worker =>
      match m.thread with
      | none => some ({ m with thread := some worker }, .outside)
      | some old => some (m, .replacing worker old)
  | .replacing worker old =>
      if m.hasEnded old then some ({ m with thread := some worker }, .outside) else none
  | .storing => some ({ m with running := false }, .testing)
  | .testing => some (m, if m.thread.isSome then .entering else .outside)
  | .entering =>
      match m.thread with
      | none => some (m, .outside)
      | some worker => some (m, .joining worker)
  | .joining worker =>
      if m.hasEnded worker then some ({ m with thread := none }, .outside) else none

/-- The next operation of a worker. -/
def work (m : CommunicationMembers) (i : Nat) (decoded : Bool) :
    Option CommunicationMembers := do
  let stage ← m.workers[i]?
  let stage' ← stage.next m.running decoded
  return { m with workers := m.workers.set i stage' }

end CommunicationMembers

/-! ## The machine -/

/-- A `CanCommunication` and the threads that call it. -/
structure CommunicationLifecycle (τ : Type) where
  members : CommunicationMembers
  callers : τ → CallStage

/-- What a thread may do. -/
inductive CommunicationEvent (τ : Type) where
  /-- `start()` is called -/
  | start (t : τ)
  /-- `stop()` is called -/
  | stop (t : τ)
  /-- the next access of the thread within its call -/
  | proceed (t : τ)
  /-- the next operation of a worker, and whether a frame has arrived that decodes -/
  | work (i : Nat) (decoded : Bool)
  deriving DecidableEq, Repr

/-- Whether an event is an operation of worker `i`. -/
def CommunicationEvent.isWorkOf {τ : Type} (i : Nat) : CommunicationEvent τ → Bool
  | .work j _ => i == j
  | _ => false

namespace CommunicationLifecycle

variable {τ : Type}

def initial : CommunicationLifecycle τ := ⟨.initial, fun _ => .outside⟩

/-- A `start` that is accepted and a `stop` do not overlap: `running_` goes from false to true
when no `stop` is on its way, and a `stop` stores false when no such `start` is. -/
def Separate (s : CommunicationLifecycle τ) : CommunicationEvent τ → Prop
  | .proceed t =>
      (s.callers t = .exchanging → s.members.running = false →
        ∀ u, (s.callers u).isStopping = false) ∧
      (s.callers t = .storing → ∀ u, (s.callers u).isStarting = false)
  | _ => True

/-- One thread that makes all the calls keeps them apart. -/
theorem separate_of_subsingleton [Subsingleton τ] (s : CommunicationLifecycle τ)
    (event : CommunicationEvent τ) : s.Separate event := by
  cases event with
  | proceed t =>
      refine ⟨fun hexchanging _ u => ?_, fun hstoring u => ?_⟩
      · rw [Subsingleton.elim u t, hexchanging]
        rfl
      · rw [Subsingleton.elim u t, hstoring]
        rfl
  | _ => trivial

variable [DecidableEq τ]

/-- A thread outside calls `start` or `stop`. -/
def call (s : CommunicationLifecycle τ) (t : τ) (entry : CallStage) :
    Option (CommunicationLifecycle τ) :=
  if s.callers t = .outside then
    some { s with callers := Function.update s.callers t entry }
  else none

/-- The next access of a thread within its call. -/
def proceed (s : CommunicationLifecycle τ) (t : τ) : Option (CommunicationLifecycle τ) :=
  (s.members.advance (s.callers t)).map fun (members, stage) =>
    ⟨members, Function.update s.callers t stage⟩

/-- What an event leads to, when it is possible. -/
def next (s : CommunicationLifecycle τ) :
    CommunicationEvent τ → Option (CommunicationLifecycle τ)
  | .start t => s.call t .exchanging
  | .stop t => s.call t .storing
  | .proceed t => s.proceed t
  | .work i decoded => (s.members.work i decoded).map fun members => { s with members := members }

/-- The steps of a `CanCommunication` and its threads. -/
def Step (s : CommunicationLifecycle τ) (event : CommunicationEvent τ)
    (s' : CommunicationLifecycle τ) : Prop :=
  s.next event = some s'

/-- The states some interleaving reaches. -/
def Reached (s : CommunicationLifecycle τ) : Prop :=
  Reachable (fun start => start = initial) Step s

/-- The steps that keep the two apart. -/
def SeparateStep (s : CommunicationLifecycle τ) (event : CommunicationEvent τ)
    (s' : CommunicationLifecycle τ) : Prop :=
  Step s event s' ∧ s.Separate event

/-- The states that some interleaving of such steps reaches. -/
def ReachedSeparately (s : CommunicationLifecycle τ) : Prop :=
  Reachable (fun start => start = initial) SeparateStep s

end CommunicationLifecycle

end RobotController.Communication
