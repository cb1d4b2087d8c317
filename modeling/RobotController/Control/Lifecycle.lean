/-
  Control/Lifecycle.lean --- starting, stopping and joining the worker.

  Source: `control/ControlLoop.cpp` (`run`, `requestStop`, `wait`,
  `completedCycles`).

  Any number of threads call `run`, `wait` and `requestStop` while the worker of
  the last accepted run goes through its loop.  A step is one access of one thread
  to a member of the `ControlLoop`; inside `lifecycle_mutex_` the holder's place in
  the code is part of the mutex, so at most one call is ever there.  Threads can be
  created and `update` does not throw; `Control/ThreadCreation.lean` has the other case.
-/
import RobotController.Foundation.Execution
import Mathlib.Logic.Function.Basic
import Mathlib.Order.Basic

set_option autoImplicit false

namespace RobotController.Control

open RobotController.Foundation

/-- `enum class ControlLoop::LifecycleState`. -/
inductive LifecycleState where
  | idle
  | running
  | finished
  deriving DecidableEq, Repr

/-! ## The worker -/

/-- The next access of a worker; `i` is the variable of its loop. -/
inductive WorkerStage where
  | starting
  | checkingToken (i : Nat)
  | checkingFlag (i : Nat)
  | updating (i : Nat)
  | finishing
  | ended
  deriving DecidableEq, Repr

/-- A thread that `run` has created: its `cycle_count`, its place in the loop, its
stop token, and whether it has been joined.  The rest is its history: the cycles
it has executed, `completed_cycles_` when it was created, and the requests to stop
that had taken effect when its run cleared the flag and when it last checked it. -/
structure Worker where
  cycleCount : Int
  stage : WorkerStage
  stopToken : Bool
  joined : Bool
  executed : Nat
  startCount : BitVec 32
  clearedAt : Nat
  lastCheck : Nat
  deriving DecidableEq, Repr

namespace Worker

/-- A worker that has just been created. -/
def new (cycleCount : Int) (clearedAt : Nat) (startCount : BitVec 32) : Worker :=
  ⟨cycleCount, .starting, false, false, 0, startCount, clearedAt, clearedAt⟩

/-- The condition of the loop, `i < cycle_count`. -/
def loopHead (w : Worker) (i : Nat) : Worker :=
  { w with stage := if (i : Int) < w.cycleCount then .checkingToken i else .finishing }

/-- The next access of a worker, given `stop_requested_` and the number of requests
to stop so far. -/
def next (stopRequested : Bool) (requests : Nat) (w : Worker) : Option Worker :=
  match w.stage with
  | .starting => some (w.loopHead 0)
  | .checkingToken i =>
      some { w with stage := if w.stopToken then .finishing else .checkingFlag i }
  | .checkingFlag i =>
      some { w with
        stage := if stopRequested then .finishing else .updating i
        lastCheck := requests }
  | .updating i => some ({ w with executed := w.executed + 1 }.loopHead (i + 1))
  | .finishing => some { w with stage := .ended }
  | .ended => none

/-- The worker has left its loop. -/
def PastLoop (w : Worker) : Prop := w.stage = .finishing ∨ w.stage = .ended

/-- The worker is within `update`. -/
def isUpdating (w : Worker) : Bool :=
  match w.stage with
  | .updating _ => true
  | _ => false

/-- The cycles a worker will have executed when it next checks the flag. -/
def committed (w : Worker) : Nat :=
  match w.stage with
  | .updating _ => w.executed + 1
  | _ => w.executed

/-- What holds of a worker at every moment. -/
def Progress (w : Worker) : Prop :=
  match w.stage with
  | .starting => w.executed = 0
  | .checkingToken i | .checkingFlag i | .updating i =>
      w.executed = i ∧ (i : Int) < w.cycleCount
  | .finishing | .ended =>
      (w.executed : Int) ≤ w.cycleCount ∧
        ((w.executed : Int) = w.cycleCount ∨ w.clearedAt < w.lastCheck)

/-- Its token is never used, it has something to do, and its loop variable counts
its cycles; it leaves its loop when they are done or on a request to stop. -/
structure Sound (w : Worker) : Prop where
  stopToken : w.stopToken = false
  positive : 0 < w.cycleCount
  progress : w.Progress

theorem sound_new {cycleCount : Int} (h : 0 < cycleCount) (clearedAt : Nat)
    (startCount : BitVec 32) : (new cycleCount clearedAt startCount).Sound :=
  ⟨rfl, h, rfl⟩

/-- The head of the loop, when the loop variable counts the cycles executed. -/
theorem progress_loopHead {w : Worker} (h : (w.executed : Int) ≤ w.cycleCount) :
    (w.loopHead w.executed).Progress := by
  unfold Progress loopHead
  by_cases hmore : (w.executed : Int) < w.cycleCount
  · simp only [if_pos hmore]
    exact ⟨trivial, hmore⟩
  · simp only [if_neg hmore]
    exact ⟨h, .inl (by omega)⟩

variable {w w' : Worker} {stopRequested : Bool} {requests : Nat}

theorem Sound.executed_le (h : w.Sound) : (w.executed : Int) ≤ w.cycleCount := by
  have hpositive := h.positive
  have hprogress := h.progress
  unfold Progress at hprogress
  split at hprogress <;> omega

theorem Sound.pastLoop (h : w.Sound) (hpast : w.PastLoop) :
    (w.executed : Int) = w.cycleCount ∨ w.clearedAt < w.lastCheck := by
  have hprogress := h.progress
  unfold Progress at hprogress
  rcases hpast with hstage | hstage <;> simp only [hstage] at hprogress <;> exact hprogress.2

/-- A worker keeps its history; a check of the flag notes the requests so far. -/
theorem next_frame (h : w.next stopRequested requests = some w') :
    w'.cycleCount = w.cycleCount ∧ w'.joined = w.joined ∧ w'.startCount = w.startCount ∧
      w'.clearedAt = w.clearedAt ∧ (w'.lastCheck = w.lastCheck ∨ w'.lastCheck = requests) := by
  cases hstage : w.stage <;> simp only [next, hstage, Option.some.injEq, reduceCtorEq] at h <;>
    subst h <;> simp [loopHead]

theorem stage_ne_ended (h : w.next stopRequested requests = some w') : w.stage ≠ .ended := by
  intro hended
  simp [next, hended] at h

/-- Only an update executes a cycle. -/
theorem executed_next (h : w.next stopRequested requests = some w') :
    w'.executed = match w.stage with
      | .updating _ => w.executed + 1
      | _ => w.executed := by
  cases hstage : w.stage <;> simp only [next, hstage, Option.some.injEq, reduceCtorEq] at h <;>
    subst h <;> rfl

theorem committed_loopHead (w : Worker) (i : Nat) : (w.loopHead i).committed = w.executed := by
  unfold loopHead committed
  by_cases hmore : (i : Int) < w.cycleCount <;> simp [hmore]

theorem executed_le_committed (w : Worker) : w.executed ≤ w.committed := by
  unfold committed
  split <;> omega

theorem committed_le (w : Worker) : w.committed ≤ w.executed + 1 := by
  unfold committed
  split <;> omega

/-- Once the flag is up, a worker commits itself to no further cycle. -/
theorem committed_next (h : w.next true requests = some w') : w'.committed ≤ w.committed := by
  cases hstage : w.stage with
  | starting =>
      simp only [next, hstage, Option.some.injEq] at h
      rw [← h, committed_loopHead]
      exact w.executed_le_committed
  | checkingToken i =>
      simp only [next, hstage, Option.some.injEq] at h
      subst h
      cases htoken : w.stopToken <;> simp [committed, hstage]
  | checkingFlag i =>
      simp only [next, hstage, Option.some.injEq] at h
      subst h
      simp [committed, hstage]
  | updating i =>
      simp only [next, hstage, Option.some.injEq] at h
      rw [← h, committed_loopHead]
      simp [committed, hstage]
  | finishing =>
      simp only [next, hstage, Option.some.injEq] at h
      subst h
      simp [committed, hstage]
  | ended => simp [next, hstage] at h

/-- A worker that finds a request to stop has been overtaken by it after its run
cleared the flag. -/
theorem Sound.next (h : w.Sound) (hstop : stopRequested = true → w.clearedAt < requests)
    (hnext : w.next stopRequested requests = some w') : w'.Sound := by
  obtain ⟨htoken, hpositive, hprogress⟩ := h
  unfold Progress at hprogress
  unfold Worker.next at hnext
  cases hstage : w.stage with
  | starting =>
      simp only [hstage, Option.some.injEq] at hnext hprogress
      subst hnext
      refine ⟨htoken, hpositive, ?_⟩
      have hhead := progress_loopHead (w := w) (by omega)
      rwa [hprogress] at hhead
  | checkingToken i =>
      simp only [hstage, htoken, Option.some.injEq] at hnext hprogress
      subst hnext
      exact ⟨rfl, hpositive, hprogress⟩
  | checkingFlag i =>
      simp only [hstage, Option.some.injEq] at hnext hprogress
      subst hnext
      refine ⟨htoken, hpositive, ?_⟩
      cases stopRequested with
      | false => exact hprogress
      | true =>
          have hle : (w.executed : Int) ≤ w.cycleCount := by omega
          exact ⟨hle, .inr (hstop rfl)⟩
  | updating i =>
      simp only [hstage, Option.some.injEq] at hnext hprogress
      subst hnext
      refine ⟨htoken, hpositive, ?_⟩
      have hle : ((w.executed + 1 : Nat) : Int) ≤ w.cycleCount := by omega
      rw [← hprogress.1]
      exact progress_loopHead (w := { w with executed := w.executed + 1 }) hle
  | finishing =>
      simp only [hstage, Option.some.injEq] at hnext hprogress
      subst hnext
      exact ⟨htoken, hpositive, hprogress⟩
  | ended => simp [hstage] at hnext

end Worker

/-! ## The members of the loop -/

/-- `lifecycle_state_`, `stop_requested_`, `thread_` as the number of the worker it
is joinable with, `completed_cycles_`, `measured_cycles_`, and the workers created
so far. -/
structure Members where
  lifecycleState : LifecycleState
  stopRequested : Bool
  thread : Option Nat
  completedCycles : BitVec 32
  measuredCycles : Nat
  workers : List Worker
  deriving DecidableEq, Repr

/-- Where the holder of `lifecycle_mutex_` is in `run` or in `wait`. -/
inductive Critical where
  | runLocked (cycleCount : Int)
  | runAdmitted (cycleCount : Int)
  | runCleared (cycleCount : Int) (clearedAt : Nat)
  | runMarked (cycleCount : Int) (clearedAt : Nat)
  | runCreated (cycleCount : Int) (worker : Nat)
  | runReplacing (cycleCount : Int) (worker old : Nat)
  | runLeaving (cycleCount : Int) (found : LifecycleState) (worker : Option Nat)
  | waitLocked
  | waitJoined
  | waitLeaving
  deriving DecidableEq, Repr

/-- The worker the call in the mutex has created. -/
def Critical.created : Critical → Option Nat
  | .runCreated _ i => some i
  | .runReplacing _ i _ => some i
  | .runLeaving _ _ worker => worker
  | _ => none

/-- The call in the mutex has not been accepted. -/
def Critical.IsRejecting : Critical → Prop
  | .runLocked _ => True
  | .runLeaving _ _ worker => worker = none
  | _ => False

namespace Members

/-- A new `ControlLoop`. -/
def initial : Members := ⟨.idle, false, none, 0, 0, []⟩

/-- Whether a thread has returned from its function. -/
def hasEnded (m : Members) (i : Nat) : Bool :=
  m.workers[i]?.any fun w => w.stage == .ended

/-- Whether a worker is within `update`. -/
def isUpdating (m : Members) (i : Nat) : Bool := m.workers[i]?.any Worker.isUpdating

/-- Whether every worker has been joined. -/
def allJoined (m : Members) : Bool := m.workers.all Worker.joined

/-- `request_stop()` on a thread. -/
def requestToken (m : Members) (i : Nat) : Members :=
  { m with workers := m.workers.modify i fun w => { w with stopToken := true } }

/-- `join()` on a thread that has returned. -/
def join (m : Members) (i : Nat) : Members :=
  { m with
    thread := none
    workers := m.workers.modify i fun w => { w with joined := true } }

/-- The next access of the holder of the mutex.  `join` waits for the thread to
return.  Assigning to a `std::jthread` that is joinable stops and joins it first. -/
def advance (m : Members) (requests : Nat) : Critical → Option (Members × Critical)
  | .runLocked n =>
      if m.lifecycleState ≠ .idle then some (m, .runLeaving n m.lifecycleState none)
      else if n ≤ 0 then some (m, .runLeaving n m.lifecycleState none)
      else some (m, .runAdmitted n)
  | .runAdmitted n => some ({ m with stopRequested := false }, .runCleared n requests)
  | .runCleared n clearedAt =>
      some ({ m with lifecycleState := .running }, .runMarked n clearedAt)
  | .runMarked n clearedAt =>
      some ({ m with workers := m.workers ++ [Worker.new n clearedAt m.completedCycles] },
        .runCreated n m.workers.length)
  | .runCreated n i =>
      match m.thread with
      | none => some ({ m with thread := some i }, .runLeaving n .idle (some i))
      | some old => some (m.requestToken old, .runReplacing n i old)
  | .runReplacing n i old =>
      if m.hasEnded old then
        some ({ m.join old with thread := some i }, .runLeaving n .idle (some i))
      else none
  | .runLeaving _ _ _ => none
  | .waitLocked =>
      match m.thread with
      | none => some (m, .waitJoined)
      | some i => if m.hasEnded i then some (m.join i, .waitJoined) else none
  | .waitJoined => some ({ m with lifecycleState := .idle }, .waitLeaving)
  | .waitLeaving => none

/-- The next access of a worker.  An update ends with `++measured_cycles_` and
`++completed_cycles_`. -/
def work (m : Members) (requests i : Nat) : Option Members := do
  let w ← m.workers[i]?
  let w' ← w.next m.stopRequested requests
  let m := { m with workers := m.workers.set i w' }
  match w.stage with
  | .updating _ =>
      return { m with
        measuredCycles := m.measuredCycles + 1
        completedCycles := m.completedCycles + 1 }
  | .finishing => return { m with lifecycleState := .finished }
  | _ => return m

end Members

/-! ## Callers -/

/-- Where a thread is that calls `run` or `wait`. -/
inductive Caller where
  | outside
  | wantsRun (cycleCount : Int)
  | wantsWait
  | inside
  deriving DecidableEq, Repr

/-- The critical section a thread waits to enter. -/
def Caller.entry : Caller → Option Critical
  | .wantsRun n => some (.runLocked n)
  | .wantsWait => some .waitLocked
  | _ => none

/-- A thread that holds the mutex, its place, and whether none of its accesses so
far has changed a member. -/
structure Holder (τ : Type) where
  caller : τ
  critical : Critical
  untouched : Bool
  deriving DecidableEq, Repr

/-- A call of `run` that has returned: its argument, the state it found under the
mutex, the worker it started, and whether its own accesses changed nothing. -/
structure RunRecord where
  cycleCount : Int
  found : LifecycleState
  worker : Option Nat
  untouched : Bool
  deriving DecidableEq, Repr

/-- A `ControlLoop` and the threads that call it, with the requests to stop and the
runs so far. -/
structure Lifecycle (τ : Type) where
  members : Members
  mutex : Option (Holder τ)
  callers : τ → Caller
  requests : Nat
  runs : List RunRecord

/-- What a thread may do. -/
inductive LifecycleEvent (τ : Type) where
  /-- `run(cycle_count)` or `wait()` is called -/
  | call (t : τ) (caller : Caller)
  | requestStop
  /-- the thread locks the mutex -/
  | acquire (t : τ)
  /-- the next access of the thread under the mutex -/
  | proceed (t : τ)
  /-- the call returns -/
  | release (t : τ)
  /-- the next access of a worker -/
  | work (i : Nat)
  deriving DecidableEq, Repr

namespace Lifecycle

variable {τ : Type}

def initial : Lifecycle τ := ⟨.initial, none, fun _ => .outside, 0, []⟩

/-- `ControlLoop::requestStop`. -/
def requestStop (s : Lifecycle τ) : Lifecycle τ :=
  { s with members := { s.members with stopRequested := true }, requests := s.requests + 1 }

/-- The next access of a worker. -/
def work (s : Lifecycle τ) (i : Nat) : Option (Lifecycle τ) :=
  (s.members.work s.requests i).map fun members => { s with members := members }

variable [DecidableEq τ]

/-- A thread outside calls `run` or `wait`. -/
def call (s : Lifecycle τ) (t : τ) (caller : Caller) : Option (Lifecycle τ) :=
  if s.callers t = .outside ∧ caller.entry.isSome then
    some { s with callers := Function.update s.callers t caller }
  else none

/-- The guard of `run` and of `wait` is constructed. -/
def acquire (s : Lifecycle τ) (t : τ) : Option (Lifecycle τ) :=
  match s.mutex, (s.callers t).entry with
  | none, some critical =>
      some { s with
        mutex := some ⟨t, critical, true⟩
        callers := Function.update s.callers t .inside }
  | _, _ => none

/-- The next access of the holder of the mutex. -/
def proceed (s : Lifecycle τ) (t : τ) : Option (Lifecycle τ) := do
  let holder ← s.mutex
  if holder.caller = t then
    let (members, critical) ← s.members.advance s.requests holder.critical
    return { s with
      members := members
      mutex := some ⟨t, critical, holder.untouched && (members == s.members)⟩ }
  else none

/-- The guard is destroyed. -/
def release (s : Lifecycle τ) (t : τ) : Option (Lifecycle τ) := do
  let holder ← s.mutex
  if holder.caller = t then
    match holder.critical with
    | .runLeaving n found worker =>
        return { s with
          mutex := none
          callers := Function.update s.callers t .outside
          runs := s.runs ++ [⟨n, found, worker, holder.untouched⟩] }
    | .waitLeaving =>
        return { s with mutex := none, callers := Function.update s.callers t .outside }
    | _ => none
  else none

/-- What an event leads to, when it is possible. -/
def next (s : Lifecycle τ) : LifecycleEvent τ → Option (Lifecycle τ)
  | .call t caller => s.call t caller
  | .requestStop => some s.requestStop
  | .acquire t => s.acquire t
  | .proceed t => s.proceed t
  | .release t => s.release t
  | .work i => s.work i

/-- The steps of a `ControlLoop` and its threads. -/
def Step (s : Lifecycle τ) (event : LifecycleEvent τ) (s' : Lifecycle τ) : Prop :=
  s.next event = some s'

/-- The states some interleaving reaches. -/
def Reached (s : Lifecycle τ) : Prop := Reachable (fun start => start = initial) Step s

/-! ## Schedules -/

/-- A schedule that can be followed from the start leads to a state that is reached. -/
theorem reached_of_schedule (events : List (LifecycleEvent τ))
    {s : Lifecycle τ}
    (h : events.foldlM next initial = some s) : s.Reached :=
  ⟨initial, events, rfl, Execution.of_schedule (fun _ _ _ => id) events h⟩

/-- A run for `n` cycles that starts a worker. -/
def runEvents (t : τ) (n : Int) : List (LifecycleEvent τ) :=
  [.call t (.wantsRun n), .acquire t] ++ List.replicate 5 (.proceed t) ++ [.release t]

/-- So many accesses of the first worker. -/
def workEvents (n : Nat) : List (LifecycleEvent τ) := List.replicate n (.work 0)

end Lifecycle

end RobotController.Control
