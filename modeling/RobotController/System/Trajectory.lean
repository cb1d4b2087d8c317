/-
  System/Trajectory.lean --- the path of the robot does not depend on timing.

  Sources: `control/ControlLoop.cpp` (`update`, `run`, `wait`), `core/Robot.cpp`
  (`update`).

  Each cycle reads the clock, asks the scheduler and updates the statistics; none of
  this reaches the robot.  What a cycle makes of the robot is decided by the robot and by
  the outcome of the cycle's command read.
-/
import RobotController.Control.Statistics
import RobotController.System.Publications

set_option autoImplicit false

namespace RobotController.Control.ControlLoop

open RobotController.Foundation RobotController.Core RobotController.Communication

variable {R : Type}

/-! ## Cycles of the robot alone -/

/-- What a read of the command buffer comes to. -/
def outcome (read : Bool × JointCommand R) : Option (JointCommand R) :=
  if read.1 then some read.2 else none

variable [Double R]

/-- One cycle: set the target of joint 1 if a command was read, then advance the robot by
one millisecond. -/
def advance (robot : Robot R) (outcome : Option (JointCommand R)) : Robot R :=
  match outcome with
  | some command =>
      (robot.setJointTargetPosition ⟨0⟩ command.targetPosition).2.update dt
  | none => robot.update dt

/-- The robot after cycles with these outcomes. -/
def trajectory (robot : Robot R) (outcomes : List (Option (JointCommand R))) : Robot R :=
  outcomes.foldl advance robot

/-- The robots after each of the cycles. -/
def trajectories (robot : Robot R) (outcomes : List (Option (JointCommand R))) :
    List (Robot R) :=
  (List.range outcomes.length).map fun j => trajectory robot (outcomes.take (j + 1))

theorem update_steer (read : Bool × JointCommand R) (robot : Robot R) :
    (steer read robot).update dt = advance robot (outcome read) := by
  unfold steer outcome
  split <;> rfl

theorem trajectory_concat (robot : Robot R) (outcomes : List (Option (JointCommand R)))
    (next : Option (JointCommand R)) :
    trajectory robot (outcomes ++ [next]) = advance (trajectory robot outcomes) next :=
  List.foldl_concat ..

@[simp] theorem length_trajectories (robot : Robot R)
    (outcomes : List (Option (JointCommand R))) :
    (trajectories robot outcomes).length = outcomes.length := by
  simp [trajectories]

/-- One more cycle adds where it leads. -/
theorem trajectories_concat (robot : Robot R) (outcomes : List (Option (JointCommand R)))
    (next : Option (JointCommand R)) :
    trajectories robot (outcomes ++ [next]) =
      trajectories robot outcomes ++ [trajectory robot (outcomes ++ [next])] := by
  have hearlier : ∀ j ∈ List.range outcomes.length,
      trajectory robot ((outcomes ++ [next]).take (j + 1)) =
        trajectory robot (outcomes.take (j + 1)) := by
    intro j hj
    have hlt : j < outcomes.length := List.mem_range.mp hj
    rw [List.take_append_of_le_length hlt]
  rw [trajectories, List.length_append, List.length_singleton, List.range_succ, List.map_append,
    List.map_congr_left hearlier, List.map_singleton, List.take_of_length_le (by simp)]
  rfl

end RobotController.Control.ControlLoop

namespace RobotController.System

open RobotController.Foundation RobotController.Core RobotController.Communication
open RobotController.Control RobotController.Scheduler RobotController.Synchronization

/-! ## What the cycles do to the robot -/

namespace Controller

section Follows

variable {R τ : Type}

/-- The outcomes of the command reads so far. -/
def outcomes (s : Controller R τ) : List (Option (JointCommand R)) :=
  s.steerings.map fun steering => ControlLoop.outcome steering.read

/-- The outcomes of the command reads since `start`. -/
def outcomesSince (start s : Controller R τ) : List (Option (JointCommand R)) :=
  s.outcomes.drop start.outcomes.length

variable [Double R]

/-- Since `start`, `n` cycles have been completed and the reads of the cycles have come to
these outcomes.  The robot has followed them, and each cycle has published where they
have led it. -/
structure Follows (start : Controller R τ) (n : Nat) (since : List (Option (JointCommand R)))
    (s : Controller R τ) : Prop where
  outcomes : s.outcomes = start.outcomes ++ since
  robot : s.robot = ControlLoop.trajectory start.robot since
  publishes : start.Publishes n (ControlLoop.trajectories start.robot since) s

theorem follows_refl {s : Controller R τ} (houtside : s.cycle = .outside) : s.Follows 0 [] s where
  outcomes := (List.append_nil _).symm
  robot := rfl
  publishes := publishes_refl houtside

variable {start s s' : Controller R τ} {n : Nat} {since : List (Option (JointCommand R))}

/-- A cycle has acted on its read. -/
theorem Follows.steer (h : start.Follows n since s) (hphase : s.cycle = .readingCommand)
    (began : Nat) (read : Bool × JointCommand R) :
    start.Follows n (since ++ [ControlLoop.outcome read]) (s.steer began read) := by
  obtain ⟨houtcomes, hrobot, hpublishes⟩ := h
  have hled : (s.steer began read).robot =
      ControlLoop.trajectory start.robot (since ++ [ControlLoop.outcome read]) := by
    rw [ControlLoop.trajectory_concat, ← hrobot, ← ControlLoop.update_steer]
    rfl
  refine ⟨?_, hled, ?_⟩
  · rw [← List.append_assoc, ← houtcomes]
    simp [Controller.outcomes, Controller.steer]
  · rw [ControlLoop.trajectories_concat, ← hled]
    exact hpublishes.steer hphase began read

variable [IntConversion R] [DecidableEq τ] {event : ControllerEvent R τ}

/-- Whatever a thread does next, the robot follows the reads. -/
theorem Follows.step (h : start.Follows n since s)
    (hevent : ∀ operation, event ≠ .operate operation) (hstep : Step s event s') :
    ∃ since', since <+: since' ∧ start.Follows (n + event.endsCycle.toNat) since' s' := by
  have hpublishes := h.publishes.step (fun operation hsame => absurd hsame (hevent operation)) hstep
  cases hstep with
  | operate operation _ => exact absurd rfl (hevent operation)
  | steer hphase _ _ => exact ⟨_, List.prefix_append _ _, h.steer hphase _ _⟩
  | _ => exact ⟨since, List.prefix_rfl, h.outcomes, h.robot, hpublishes⟩

theorem Follows.execution (h : start.Follows n since s) {trace : List (ControllerEvent R τ)}
    (hexec : Execution Step s trace s')
    (hevents : ∀ event ∈ trace, ∀ operation, event ≠ .operate operation) :
    ∃ n' since', since <+: since' ∧ start.Follows n' since' s' := by
  let Kept : Controller R τ → Prop := fun t => ∃ n' since', since <+: since' ∧
    start.Follows n' since' t
  have hkeeps : ∀ (a : Controller R τ) (event : ControllerEvent R τ) (b : Controller R τ),
      (∀ operation, event ≠ .operate operation) → Kept a → Step a event b → Kept b := by
    rintro a event b hevent ⟨m, before, hprefix, hfollows⟩ hstep
    obtain ⟨after, hprefix', hfollows'⟩ := hfollows.step hevent hstep
    exact ⟨_, after, hprefix.trans hprefix', hfollows'⟩
  have hkept : Kept s' := hexec.keeps_of_forall hkeeps hevents ⟨n, since, List.prefix_rfl, h⟩
  exact hkept

end Follows

end Controller

/-! ## The program with its clock readings and statistics -/

/-- The program, its timing statistics, and the time points the update in progress has
noted. -/
structure TimedController (R τ : Type) where
  controller : Controller R τ
  statistics : TimingStatistics R
  timing : CycleTiming
  controlStart : TimePoint
  snapshotStart : TimePoint

/-- The worker takes statistics with this event. -/
def ControllerEvent.isTimed {R τ : Type} : ControllerEvent R τ → Bool
  | .beginCycle _ | .publishSnapshot | .endCycle _ => true
  | _ => false

namespace TimedController

section Timed

variable {R τ : Type} [Double R] [IntConversion R]

/-- `measured_cycles_`. -/
def measuredCycles (s : TimedController R τ) : Nat := s.controller.loop.members.measuredCycles

/-- A new control loop around a robot. -/
def initial (robot : Robot R) : TimedController R τ where
  controller := .initial robot
  statistics := ControlLoop.initialStatistics
  timing := ControlLoop.beginTiming 0 0
  controlStart := 0
  snapshotStart := 0

variable [DecidableEq τ]

/-- The steps of the program, whatever the clock reads, on whatever processor the worker
runs and whatever the scheduler says of a start. -/
inductive Step : TimedController R τ → ControllerEvent R τ → TimedController R τ → Prop where
  | beginCycle {s : TimedController R τ} {i : Nat} {controller : Controller R τ}
      (scheduler : IControlScheduler R) (processor : Int)
      (scheduledStart cycleStart controlStart : TimePoint) :
      Controller.Step s.controller (.beginCycle i) controller →
      Step s (.beginCycle i)
        { s with
          controller := controller
          statistics := ControlLoop.beginStatistics scheduler s.measuredCycles processor
            (ControlLoop.beginTiming scheduledStart cycleStart) s.statistics
          timing := ControlLoop.beginTiming scheduledStart cycleStart
          controlStart := controlStart }
  | publishSnapshot {s : TimedController R τ} {controller : Controller R τ}
      (controlEnd snapshotStart : TimePoint) :
      Controller.Step s.controller .publishSnapshot controller →
      Step s .publishSnapshot
        { s with
          controller := controller
          statistics :=
            ControlLoop.updateControlStatistics s.controlStart controlEnd s.statistics
          snapshotStart := snapshotStart }
  | endCycle {s : TimedController R τ} {i : Nat} {controller : Controller R τ}
      (scheduler : IControlScheduler R) (snapshotEnd actualEnd : TimePoint) :
      Controller.Step s.controller (.endCycle i) controller →
      Step s (.endCycle i)
        { s with
          controller := controller
          statistics := ControlLoop.endStatistics scheduler s.measuredCycles s.snapshotStart
            snapshotEnd { s.timing with actualEnd := actualEnd } s.statistics
          timing := { s.timing with actualEnd := actualEnd } }
  | untimed {s : TimedController R τ} {event : ControllerEvent R τ}
      {controller : Controller R τ} :
      event.isTimed = false → Controller.Step s.controller event controller →
      Step s event { s with controller := controller }

variable {s s' : TimedController R τ} {event : ControllerEvent R τ}

/-- Without its clock it is the program. -/
theorem Step.controller (h : Step s event s') :
    Controller.Step s.controller event s'.controller := by
  cases h with
  | beginCycle _ _ _ _ _ hstep => exact hstep
  | publishSnapshot _ _ hstep => exact hstep
  | endCycle _ _ _ hstep => exact hstep
  | untimed _ hstep => exact hstep

/-- The clock may read anything at any step. -/
theorem exists_step (scheduler : IControlScheduler R) (processor : Int) (reading : TimePoint)
    {controller : Controller R τ} (h : Controller.Step s.controller event controller) :
    ∃ s', Step s event s' ∧ s'.controller = controller := by
  cases event with
  | beginCycle i => exact ⟨_, .beginCycle scheduler processor reading reading reading h, rfl⟩
  | publishSnapshot => exact ⟨_, .publishSnapshot reading reading h, rfl⟩
  | endCycle i => exact ⟨_, .endCycle scheduler reading reading h, rfl⟩
  | _ => exact ⟨_, .untimed rfl h, rfl⟩

/-- The executions of the timed program are those of the program, each with any readings
of the clock. -/
theorem execution_controller {trace : List (ControllerEvent R τ)}
    (h : Execution Step s trace s') :
    Execution Controller.Step s.controller trace s'.controller := by
  have hsimulates : ∀ (a : TimedController R τ) (event : ControllerEvent R τ)
      (b : TimedController R τ) (c : Controller R τ), a.controller = c → Step a event b →
        ∃ c', Controller.Step c event c' ∧ b.controller = c' := by
    rintro a event b _ rfl hstep
    exact ⟨_, hstep.controller, rfl⟩
  obtain ⟨_, hexec, rfl⟩ := h.simulate hsimulates rfl
  exact hexec

theorem exists_execution (scheduler : IControlScheduler R) (processor : Int)
    (reading : TimePoint) {trace : List (ControllerEvent R τ)} {controller : Controller R τ}
    (h : Execution Controller.Step s.controller trace controller) :
    ∃ s', Execution Step s trace s' ∧ s'.controller = controller := by
  have hsimulates : ∀ (c : Controller R τ) (event : ControllerEvent R τ) (c' : Controller R τ)
      (a : TimedController R τ), a.controller = c → Controller.Step c event c' →
        ∃ b, Step a event b ∧ b.controller = c' := by
    rintro _ event c' a rfl hstep
    exact exists_step scheduler processor reading hstep
  exact h.simulate hsimulates rfl

/-! ## The path of the robot -/

/-- The outcomes of the command reads since `start`. -/
def outcomesSince (start s : TimedController R τ) : List (Option (JointCommand R)) :=
  start.controller.outcomesSince s.controller

/-- An execution from `start` to `s` completes `n` cycles, and nothing but the cycles
operates on the robot. -/
def Cycles (start : TimedController R τ) (n : Nat) (s : TimedController R τ) : Prop :=
  ∃ trace, Execution Step start trace s ∧
    (∀ event ∈ trace, ∀ operation, event ≠ .operate operation) ∧
    s.measuredCycles = start.measuredCycles + n

/-- `s` is between two cycles of an execution of `N` cycles from `start` to `t`, after the
first `k` of them. -/
structure Between (start : TimedController R τ) (k N : Nat) (t s : TimedController R τ) :
    Prop where
  before : start.Cycles k s
  after : s.Cycles (N - k) t
  outside : s.controller.cycle = .outside

/-- After cycles from `start` with these outcomes: the robot is where they lead it, and each
cycle has published to either buffer where it has led. -/
structure Iterated (start : TimedController R τ) (outcomes : List (Option (JointCommand R)))
    (s : TimedController R τ) : Prop where
  robot : s.controller.robot = ControlLoop.trajectory start.controller.robot outcomes
  canState : s.controller.canState.history = start.controller.canState.history ++
    (ControlLoop.trajectories start.controller.robot outcomes).map fun robot => robot.state 0
  snapshot : s.controller.snapshot.history = start.controller.snapshot.history ++
    (ControlLoop.trajectories start.controller.robot outcomes).map Robot.state

theorem Cycles.follows {start : TimedController R τ} {n m : Nat}
    {since : List (Option (JointCommand R))} (h : s.Cycles n s')
    (hfollows : start.controller.Follows m since s.controller) :
    ∃ since', since <+: since' ∧ start.controller.Follows (m + n) since' s'.controller := by
  obtain ⟨trace, hexec, hevents, hmeasured⟩ := h
  obtain ⟨n', since', hprefix, hfollows'⟩ :=
    hfollows.execution (execution_controller hexec) hevents
  have hn : n' = m + n := by
    have hbefore := hfollows.publishes.measured
    have hafter := hfollows'.publishes.measured
    simp only [measuredCycles] at hmeasured
    omega
  exact ⟨since', hprefix, hn ▸ hfollows'⟩

theorem Between.iterated {start t : TimedController R τ} {N k : Nat}
    (hstart : start.controller.cycle = .outside) (h : start.Between k N t s) :
    start.Iterated ((start.outcomesSince t).take k) s := by
  obtain ⟨hbefore, hafter, houtside⟩ := h
  obtain ⟨since, -, hfollows⟩ := hbefore.follows (Controller.follows_refl hstart)
  obtain ⟨since', ⟨later, rfl⟩, hfollows'⟩ := hafter.follows hfollows
  have hlength := hfollows.publishes.length
  have hcanState := hfollows.publishes.canState
  have hsnapshot := hfollows.publishes.snapshot
  rw [houtside] at hlength hcanState hsnapshot
  simp only [ControlLoop.length_trajectories, CyclePhase.updates, CyclePhase.states,
    CyclePhase.snapshots, Nat.zero_add, Nat.add_zero] at hlength hcanState hsnapshot
  have hsince : (start.outcomesSince t).take k = since := by
    rw [outcomesSince, Controller.outcomesSince, hfollows'.outcomes, List.drop_left, ← hlength,
      List.take_left]
  have hall : (ControlLoop.trajectories start.controller.robot since).take k =
      ControlLoop.trajectories start.controller.robot since :=
    List.take_of_length_le (by simp [hlength])
  rw [hall] at hcanState hsnapshot
  rw [hsince]
  exact ⟨hfollows.robot, hcanState, hsnapshot⟩

/-- An execution passes between any two of its cycles. -/
theorem exists_between_of_execution {start t : TimedController R τ}
    {trace : List (ControllerEvent R τ)} (hexec : Execution Step start trace t) :
    ∀ k, 0 < k → start.measuredCycles + k ≤ t.measuredCycles →
      ∃ a front rest, trace = front ++ rest ∧ Execution Step start front a ∧
        Execution Step a rest t ∧ a.measuredCycles = start.measuredCycles + k ∧
        a.controller.cycle = .outside := by
  induction hexec with
  | refl _ =>
      intro k hpositive hk
      omega
  | @cons s mid t event trace hstep hrest ih =>
      intro k hpositive hk
      have hmeasured : mid.measuredCycles = s.measuredCycles + event.endsCycle.toNat :=
        Controller.measured_of_step hstep.controller
      -- the moment is at the end of the first step, or after the moment of the rest
      have hlater : ∀ n, 0 < n → mid.measuredCycles + n = s.measuredCycles + k →
          ∃ a front rest, event :: trace = front ++ rest ∧ Execution Step s front a ∧
            Execution Step a rest t ∧ a.measuredCycles = s.measuredCycles + k ∧
            a.controller.cycle = .outside := by
        intro n hn hsum
        obtain ⟨a, front, rest, rfl, hfront, hafter, ha, houtside⟩ := ih n hn (by omega)
        exact ⟨a, event :: front, rest, rfl, .cons hstep hfront, hafter, by omega, houtside⟩
      by_cases hends : event.endsCycle = true
      · rw [hends, Bool.toNat_true] at hmeasured
        by_cases hone : k = 1
        · subst hone
          exact ⟨mid, [event], trace, rfl, .single hstep, hrest, hmeasured,
            Controller.outside_of_endsCycle hstep.controller hends⟩
        · exact hlater (k - 1) (by omega) (by omega)
      · rw [Bool.not_eq_true] at hends
        rw [hends, Bool.toNat_false] at hmeasured
        exact hlater k hpositive (by omega)

theorem Cycles.exists_between {start t : TimedController R τ} {N k : Nat}
    (hstart : start.controller.cycle = .outside) (h : start.Cycles N t) (hk : k ≤ N) :
    ∃ a, start.Between k N t a := by
  obtain ⟨trace, hexec, hevents, hmeasured⟩ := h
  rcases Nat.eq_zero_or_pos k with rfl | hpositive
  · exact ⟨start, ⟨[], .refl start, by simp, rfl⟩, ⟨trace, hexec, hevents, hmeasured⟩, hstart⟩
  · obtain ⟨a, front, rest, rfl, hfront, hrest, ha, houtside⟩ :=
      exists_between_of_execution hexec k hpositive (by omega)
    rw [List.forall_mem_append] at hevents
    exact ⟨a, ⟨front, hfront, hevents.1, ha⟩, ⟨rest, hrest, hevents.2, by omega⟩, houtside⟩

/-- The path of the robot does not depend on timing or on the grouping of the cycles into
runs.  Two executions start with no cycle in progress and from the same robot, and each
completes `N` cycles, whatever their clocks read, whatever the scheduler says of the
starts, whatever statistics they begin with, and whatever their threads call.  If the
outcomes of their first `N` command reads agree, then after every `k` of these cycles both
robots, both sequences of states published for the bus and both sequences of snapshots
published are the same: those of the `k`-fold iteration of setting joint 1's target when a
command was read and advancing the robot by one millisecond. -/
theorem trajectory_independent_of_timing {start start' t t' : TimedController R τ} {N : Nat}
    (hstart : start.controller.cycle = .outside) (hstart' : start'.controller.cycle = .outside)
    (hrobot : start.controller.robot = start'.controller.robot) (ht : start.Cycles N t)
    (ht' : start'.Cycles N t')
    (houtcomes : (start.outcomesSince t).take N = (start'.outcomesSince t').take N) :
    ∀ k ≤ N, (∃ a, start.Between k N t a) ∧ (∃ a', start'.Between k N t' a') ∧
      ∀ a a', start.Between k N t a → start'.Between k N t' a' →
        a.controller.robot = a'.controller.robot ∧
          start.Iterated ((start.outcomesSince t).take k) a ∧
          start'.Iterated ((start.outcomesSince t).take k) a' := by
  intro k hk
  refine ⟨ht.exists_between hstart hk, ht'.exists_between hstart' hk, fun a a' ha ha' => ?_⟩
  have hsame : (start.outcomesSince t).take k = (start'.outcomesSince t').take k := by
    rw [← Nat.min_eq_left hk, ← List.take_take, houtcomes, List.take_take]
  have hiterated := ha.iterated hstart
  have hiterated' := ha'.iterated hstart'
  rw [← hsame] at hiterated'
  refine ⟨?_, hiterated, hiterated'⟩
  rw [hiterated.robot, hiterated'.robot, hrobot]

end Timed

/-! ## One cycle, twice -/

section OneCycle

/-- A run for `n` cycles that is asked to stop during the first. -/
def firstOf (n : Int) : List (ControllerEvent ℚ Unit) :=
  Controller.startEvents () n ++ [.beginCycle 0] ++ List.replicate 3 .accessCommand ++
    [.steer, .publishState] ++ List.replicate 4 .writeState ++ [.publishSnapshot] ++
    List.replicate 14 .writeSnapshot ++ [.lifecycle .requestStop, .endCycle 0]

theorem ne_operate_of_mem_firstOf {n : Int} :
    ∀ event ∈ firstOf n, ∀ operation, event ≠ .operate operation := by
  rintro event hevent operation rfl
  simp [firstOf, Controller.startEvents] at hevent

/-- A loop that has taken statistics before, around a robot whose joint 1 stands at forty-five
degrees. -/
def startWith (statistics : TimingStatistics ℚ) : TimedController ℚ Unit :=
  { (initial ControlLoop.placed) with statistics := statistics }

/-- One such cycle, from any statistics and with any readings. -/
theorem exists_first (statistics : TimingStatistics ℚ) (reading : TimePoint) {n : Int}
    (hn : n = 1 ∨ n = 2) :
    ∃ t, (startWith statistics).Cycles 1 t ∧ t.controller.cycle = .outside ∧
      (startWith statistics).outcomesSince t = [some JointCommand.default] := by
  have hrun : ∃ c : Controller ℚ Unit,
      (firstOf n).foldlM Controller.next (.initial ControlLoop.placed) = some c ∧
      c.loop.members.measuredCycles = 1 ∧ c.cycle = .outside ∧
      c.outcomes = [some JointCommand.default] := by
    rcases hn with rfl | rfl
    · exact ⟨_, rfl, rfl, rfl, rfl⟩
    · exact ⟨_, rfl, rfl, rfl, rfl⟩
  obtain ⟨c, hc, hmeasured, houtside, houtcomes⟩ := hrun
  have hexec : Execution Controller.Step (startWith statistics).controller (firstOf n) c :=
    Execution.of_schedule (fun _ _ _ => Controller.step_of_next) _ hc
  obtain ⟨t, ht, rfl⟩ :=
    exists_execution (PortableControlScheduler.new 1 0).toIControlScheduler 0 reading hexec
  exact ⟨t, ⟨_, ht, ne_operate_of_mem_firstOf, hmeasured⟩, houtside, houtcomes⟩

theorem trajectory_independent_of_timing_once :
    ∃ start start' t t' : TimedController ℚ Unit, start.Cycles 1 t ∧ start'.Cycles 1 t' ∧
      start.statistics ≠ start'.statistics ∧ t.controller.robot = t'.controller.robot ∧
      t.controller.robot.state 0 = ⟨⟨8999997 / 200000⟩, ⟨-3 / 100⟩⟩ := by
  let later : TimingStatistics ℚ := { ControlLoop.initialStatistics with deadlineMisses := 7 }
  have hne : ControlLoop.initialStatistics ≠ later := by
    intro heq
    have hmisses : 0 = 7 := congrArg TimingStatistics.deadlineMisses heq
    simp at hmisses
  obtain ⟨t, ht, houtside, houtcomes⟩ :=
    exists_first ControlLoop.initialStatistics 0 (.inl rfl)
  obtain ⟨t', ht', houtside', houtcomes'⟩ := exists_first later 9000000 (.inr rfl)
  have hrobot : (startWith ControlLoop.initialStatistics).controller.robot =
      (startWith later).controller.robot := rfl
  obtain ⟨-, -, hequal⟩ := trajectory_independent_of_timing rfl rfl hrobot ht ht'
    (by rw [houtcomes, houtcomes']) 1 (Nat.le_refl 1)
  have hdone : ∀ s : TimedController ℚ Unit, s.Cycles (1 - 1) s :=
    fun s => ⟨[], .refl s, by simp, rfl⟩
  obtain ⟨hsame, hiterated, -⟩ := hequal t t' ⟨ht, hdone t, houtside⟩ ⟨ht', hdone t', houtside'⟩
  refine ⟨_, _, t, t', ht, ht', hne, hsame, ?_⟩
  rw [hiterated.robot, houtcomes]
  exact ControlLoop.state_placed

end OneCycle

end TimedController

end RobotController.System
