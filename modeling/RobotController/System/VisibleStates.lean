/-
  System/VisibleStates.lean --- the states that are seen from outside.

  Sources: `control/ControlLoop.cpp` (`update`, `state`),
  `communication/CanCommunication.cpp` (`transmitState`).

  The program is run with a record of the states the robot has had: when the loop was
  constructed, when runs were started, and at the ends of the cycles.  What callers of
  `state` and listeners on the bus are told is from this record once a cycle has published;
  until then it is the zero-initialised state of a fresh buffer.
-/
import RobotController.System.Publications
import RobotController.System.StateReporting

set_option autoImplicit false

namespace RobotController.System

open RobotController.Foundation RobotController.Core RobotController.Communication
open RobotController.Control RobotController.Synchronization

/-! ## The program with a record of the robot -/

/-- The program, the states of the robot when the loop was constructed and when its runs
were started, and the robots the cycles have led to. -/
structure RecordedController (R τ : Type) where
  controller : Controller R τ
  starts : List (RobotState R)
  updates : List (Robot R)

namespace RecordedController

section Recorded

variable {R τ : Type}

/-- The states in the record. -/
def states (s : RecordedController R τ) : List (RobotState R) :=
  s.starts ++ s.updates.map Robot.state

/-- The state of the robot if a run is started. -/
def started (before after : Controller R τ) : List (RobotState R) :=
  if before.loop.members.workers.length < after.loop.members.workers.length then
    [before.robot.state]
  else
    []

/-- What is recorded of an event that leads to `after`. -/
def record (s : RecordedController R τ) (event : ControllerEvent R τ) (after : Controller R τ) :
    RecordedController R τ where
  controller := after
  starts := s.starts ++ started s.controller after
  updates := event.record after s.updates

/-- An entry of a buffer is its initial value or what a cycle has led to. -/
theorem entry_cases {α : Type} {observe : Robot R → α} {first value : α}
    {updates : List (Robot R)} {k n : Nat}
    (h : ([first] ++ (updates.take k).map observe)[n]? = some value) :
    n = 0 ∧ value = first ∨ ∃ robot ∈ updates, value = observe robot := by
  cases n with
  | zero => exact .inl ⟨rfl, (Option.some.inj h).symm⟩
  | succ n =>
      have hmem : value ∈ (updates.take k).map observe := by
        rw [List.singleton_append, List.getElem?_cons_succ] at h
        exact List.mem_of_getElem? h
      obtain ⟨robot, hrobot, rfl⟩ := List.mem_map.mp hmem
      exact .inr ⟨robot, List.mem_of_mem_take hrobot, rfl⟩

variable [Double R]

/-- A new control loop around a robot. -/
def initial (robot : Robot R) : RecordedController R τ := ⟨.initial robot, [robot.state], []⟩

variable [IntConversion R] [DecidableEq τ]

def Step (s : RecordedController R τ) (event : ControllerEvent R τ)
    (s' : RecordedController R τ) : Prop :=
  ∃ after, Controller.Step s.controller event after ∧ s' = s.record event after

/-- The states some interleaving reaches, whatever the robot was at first. -/
def Reached (s : RecordedController R τ) : Prop :=
  Reachable (fun start => ∃ robot, start = initial robot) Step s

/-- What an event leads to, when it is possible. -/
def next (s : RecordedController R τ) (event : ControllerEvent R τ) :
    Option (RecordedController R τ) :=
  (s.controller.next event).map (s.record event)

theorem step_of_next {s s' : RecordedController R τ} {event : ControllerEvent R τ}
    (h : s.next event = some s') : Step s event s' := by
  obtain ⟨after, hafter, rfl⟩ := Option.map_eq_some_iff.mp h
  exact ⟨after, Controller.step_of_next hafter, rfl⟩

variable {s s' : RecordedController R τ}

/-- Without the record it is the program. -/
theorem Reached.controller (h : s.Reached) : s.controller.Reached := by
  refine h.invariant (fun s => s.controller.Reached) ?_ fun s event s' hs hstep => ?_
  · rintro start ⟨robot, rfl⟩
    exact Reachable.init ⟨robot, rfl⟩
  · obtain ⟨after, hafter, rfl⟩ := hstep
    exact hs.step hafter

/-- The cycles publish what they have led to. -/
theorem Reached.publishes (h : s.Reached) : ∃ (robot : Robot R) (n : Nat),
    (Controller.initial robot).Publishes n s.updates s.controller := by
  refine h.invariant_of_reachable (fun s => ∃ (robot : Robot R) (n : Nat),
    (Controller.initial robot).Publishes n s.updates s.controller) ?_
    fun s event s' hs hpublishes hstep => ?_
  · rintro start ⟨robot, rfl⟩
    exact ⟨robot, 0, Controller.publishes_refl rfl⟩
  · obtain ⟨robot, n, hpublishes⟩ := hpublishes
    have hcoordinated := (Reached.controller hs).coordinated
    obtain ⟨after, hafter, rfl⟩ := hstep
    refine ⟨robot, _, hpublishes.step ?_ hafter⟩
    rintro operation rfl
    cases hafter with
    | operate _ hjoined => exact hcoordinated.outside hjoined

/-- Every report is the state of a fresh buffer or one a cycle has led to, and the latter if
its read has succeeded and began after a publication. -/
theorem Reached.report (h : s.Reached) {report : Report R}
    (hreport : report ∈ s.controller.reports) :
    (report.state = RobotState.default ∨ ∃ robot ∈ s.updates, report.state = robot.state) ∧
      (report.ok = true → 0 < report.since → ∃ robot ∈ s.updates, report.state = robot.state) := by
  obtain ⟨robot, n, hpublishes⟩ := h.publishes
  have hread := List.mem_map_of_mem (f := fun report : Report R =>
    (if report.ok then report.since else 0, report.state)) hreport
  obtain ⟨k, hsince, hk⟩ := h.controller.reported.1.1.exists_entry hread
  rw [hpublishes.snapshot] at hk
  rcases entry_cases hk with ⟨rfl, hdefault⟩ | hled
  · refine ⟨.inl hdefault, fun hok hpositive => ?_⟩
    simp only [hok, if_true] at hsince
    omega
  · exact ⟨.inr hled, fun _ _ => hled⟩

/-- So is every state of joint 1 that a successful read obtains. -/
theorem Reached.sampled (h : s.Reached) {reader : Option τ}
    {call : Call StateCell R (JointState R)} {state : JointState R}
    (hcall : s.controller.canState.calls reader = some call)
    (hresult : call.result = some (true, state)) :
    (state = JointState.default ∨ ∃ robot ∈ s.updates, state = robot.state 0) ∧
      (0 < call.since → ∃ robot ∈ s.updates, state = robot.state 0) := by
  obtain ⟨robot, n, hpublishes⟩ := h.publishes
  obtain ⟨k, hsince, -, hk⟩ := h.controller.locked.canState.of_true hcall hresult
  rw [hpublishes.canState] at hk
  rcases entry_cases hk with ⟨rfl, hdefault⟩ | hled
  · exact ⟨.inl hdefault, fun hpositive => by omega⟩
  · exact ⟨.inr hled, fun _ => hled⟩

/-- What is seen from outside.  Whatever operations the robot has been through before and
between runs, and however the communication thread, the cycles and the callers of `state`
interleave: every state that `state` has returned, and every state of joint 1 that is
encoded into a transmitted frame, is the zero-initialised state of a fresh buffer or the
state of the robot at the end of a cycle.  It is the latter if the read it comes from
succeeded and began when a cycle's publication had been completed.  When a cycle ends, the
robot is the one recorded for this cycle. -/
theorem visible_states (hs : s.Reached) :
    (∀ report ∈ s.controller.reports,
      (report.state = RobotState.default ∨ ∃ robot ∈ s.updates, report.state = robot.state) ∧
        (report.ok = true → 0 < report.since →
          ∃ robot ∈ s.updates, report.state = robot.state)) ∧
      (∀ s', Step s .transmit s' →
        s'.controller.traffic = s.controller.traffic.finish none ∨
          ∃ (call : Call StateCell R (JointState R)) (state : JointState R) (frame : CanFrame),
            s.controller.canState.calls none = some call ∧
              JointStateCodec.encode state = some frame ∧
              s'.controller.traffic = s.controller.traffic.finish (some frame) ∧
              (state = JointState.default ∨ ∃ robot ∈ s.updates, state = robot.state 0) ∧
              (0 < call.since → ∃ robot ∈ s.updates, state = robot.state 0)) ∧
      ∀ i s', Step s (.endCycle i) s' →
        s'.updates.length = s'.controller.loop.members.measuredCycles ∧
          s'.updates.getLast? = some s'.controller.robot := by
  refine ⟨fun report hreport => hs.report hreport, ?_, ?_⟩
  · rintro s' ⟨after, hafter, rfl⟩
    cases hafter with
    | transmitState _ hcall hresult hencode =>
        exact .inr ⟨_, _, _, hcall, hencode, rfl, hs.sampled hcall hresult⟩
    | transmitNothing _ _ _ => exact .inl rfl
  · rintro i s' ⟨after, hafter, rfl⟩
    obtain ⟨robot, n, hpublishes⟩ := hs.publishes
    have hafter' := hpublishes.step (by simp) hafter
    have hlength := hafter'.length
    rw [Controller.outside_of_endsCycle hafter rfl] at hlength
    refine ⟨hlength.trans ?_, ?_⟩
    · exact (hafter'.measured.trans (Nat.zero_add _)).symm
    · cases hafter with
      | endCycle hphase _ _ _ _ => exact hpublishes.latest (by rw [hphase]; rfl)

end Recorded

/-! ## Before and after the first cycle -/

section FirstCycle

/-- A call of `state`. -/
def callState : List (ControllerEvent ℚ Unit) :=
  [.lockState ()] ++ List.replicate 14 (.accessSnapshot ()) ++ [.returnState ()]

theorem visible_states_once :
    ∃ (s : RecordedController ℚ Unit) (report : Report ℚ), s.Reached ∧
      s.controller.reports = [report] ∧ ∃ robot ∈ s.updates, report.state = robot.state := by
  have hrun : ∃ s : RecordedController ℚ Unit,
      (Controller.cycleOnce ++ callState).foldlM next (initial ControlLoop.placed) = some s ∧
      ∃ report, s.controller.reports = [report] ∧ report.ok = true ∧ report.since = 1 :=
    ⟨_, rfl, _, rfl, rfl, rfl⟩
  obtain ⟨s, hs, report, hreports, hok, hsince⟩ := hrun
  have hexec := Execution.of_schedule (fun _ _ _ => step_of_next) _ hs
  have hreached : s.Reached := ⟨_, _, ⟨ControlLoop.placed, rfl⟩, hexec⟩
  obtain ⟨hreport, -, -⟩ := visible_states hreached
  exact ⟨s, report, hreached, hreports, (hreport report (by simp [hreports])).2 hok (by omega)⟩

/-- Before the first cycle `state` returns a state that the robot has not had: zero degrees,
while joint 1 has been at forty-five ever since the loop was constructed. -/
theorem zero_state_before_first_cycle :
    (Robot.initial.initializeJointPosition ⟨0⟩ ⟨45⟩ : Bool × Robot ℚ).1 = true ∧
      ∃ s : RecordedController ℚ Unit, s.Reached ∧ s.states = [ControlLoop.placed.state] ∧
        ∃ report ∈ s.controller.reports, report.state ∉ s.states := by
  refine ⟨by decide, ?_⟩
  have hrun : ∃ s : RecordedController ℚ Unit,
      callState.foldlM next (initial ControlLoop.placed) = some s ∧
      s.states = [ControlLoop.placed.state] ∧
      ∃ report, s.controller.reports = [report] ∧ (report.state 0).position.degrees = 0 :=
    ⟨_, rfl, rfl, _, rfl, rfl⟩
  obtain ⟨s, hs, hstates, report, hreports, hzero⟩ := hrun
  have hexec := Execution.of_schedule (fun _ _ _ => step_of_next) _ hs
  refine ⟨s, ⟨_, _, ⟨ControlLoop.placed, rfl⟩, hexec⟩, hstates, report, by simp [hreports], ?_⟩
  rw [hstates, List.mem_singleton]
  intro hsame
  have hdegrees : (ControlLoop.placed.state 0).position.degrees = 45 := rfl
  rw [← hsame, hzero] at hdegrees
  norm_num at hdegrees

end FirstCycle

end RecordedController

end RobotController.System
