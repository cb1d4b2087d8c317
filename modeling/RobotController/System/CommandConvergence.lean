/-
  System/CommandConvergence.lean --- a command takes joint 1 to its target.

  Sources: `communication/CanCommunication.cpp` (`run`), `control/ControlLoop.cpp`
  (`update`), `core/Robot.cpp` (`update`).

  The command goes through the frame, the queue, the buffer and the cycles; what comes out
  at the other end is a robot that approaches it.  After a command has been published and
  as long as no other one arrives, every cycle reads it, whatever the other threads do.  So
  the path of the robot is a run of operations that leave joint 1 to the command and the
  other joints to their own targets.
-/
import RobotController.Core.Convergence
import RobotController.System.CommandDelivery
import RobotController.System.StateRange
import RobotController.System.Trajectory

set_option autoImplicit false

namespace RobotController.Control.ControlLoop

open RobotController.Foundation RobotController.Core RobotController.Communication
open RobotController.Simulation

/-! ## Cycles as operations of the robot -/

section Operations

variable {R : Type} [Double R]

/-- What a cycle does to the robot. -/
def operations : Option (JointCommand R) → List (RobotOperation R)
  | some command => [.setJointTargetPosition ⟨0⟩ command.targetPosition, .update dt]
  | none => [.update dt]

theorem advance_eq_run (robot : Robot R) (outcome : Option (JointCommand R)) :
    advance robot outcome = robot.run (operations outcome) := by
  cases outcome <;> rfl

theorem trajectory_eq_run (outcomes : List (Option (JointCommand R))) :
    ∀ robot : Robot R, trajectory robot outcomes = robot.run (outcomes.flatMap operations) := by
  induction outcomes with
  | nil => exact fun _ => rfl
  | cons outcome rest ih =>
      intro robot
      rw [List.flatMap_cons, Robot.run_append, ← advance_eq_run, ← ih]
      rfl

theorem trajectories_cases {robot led : Robot R} {outcomes : List (Option (JointCommand R))}
    {k : Nat} (h : (trajectories robot outcomes)[k]? = some led) :
    k < outcomes.length ∧ led = trajectory robot (outcomes.take (k + 1)) := by
  rw [trajectories, List.getElem?_map] at h
  obtain ⟨j, hj, rfl⟩ := Option.map_eq_some_iff.mp h
  obtain ⟨hlt, hvalue⟩ := List.getElem?_eq_some_iff.mp hj
  rw [List.getElem_range] at hvalue
  rw [List.length_range] at hlt
  exact ⟨hlt, by rw [hvalue]⟩

end Operations

section Heading

variable {c : JointCommand ℝ} {robot : Robot ℝ} {i : Fin jointCount}

/-- Where a joint heads under a command: joint 1 to the command, the others to their own
targets. -/
noncomputable def heading (command : JointCommand ℝ) (robot : Robot ℝ) (i : Fin jointCount) :
    Angle ℝ :=
  if i = 0 then command.targetPosition else (robot.joints i).targetPosition

theorem dt_seconds : (dt : Duration ℝ).seconds = 1 / 1000 := by simp [dt]

/-- A cycle that reads the command leaves every joint to where it heads. -/
theorem leaves_operations :
    ∀ operation ∈ operations (some c), operation.Leaves i (heading c robot i) := by
  rw [operations, List.forall_mem_cons, List.forall_mem_singleton]
  constructor
  · intro hindex
    have hzero : i = 0 := Fin.ext hindex.symm
    rw [heading, if_pos hzero]
  · change (dt : Duration ℝ).seconds ≤ 1 / 100
    rw [dt_seconds]
    norm_num

/-- A cycle advances the robot by a millisecond. -/
theorem periods_operations (n : Nat) :
    Robot.periods ((List.replicate n (some c)).flatMap operations) =
      List.replicate n (1 / 1000) := by
  induction n with
  | zero => rfl
  | succ n ih =>
      have hpos : 0 < (dt : Duration ℝ).seconds := by
        rw [dt_seconds]
        norm_num
      have hone : Robot.periods (operations (some c)) = [1 / 1000] := by
        rw [operations, Robot.periods, List.filterMap_cons_none rfl, List.filterMap_cons,
          RobotOperation.period, if_pos hpos, dt_seconds]
        rfl
      rw [Robot.periods] at ih hone ⊢
      rw [List.replicate_succ, List.flatMap_cons, List.filterMap_append, ih, hone]
      rfl

/-- The first read turns joint 1 to the command. -/
theorem heads_command (hconfigured : robot.Configured) (hwithin : (robot.axis i).WithinLimits) :
    Heads i (heading c robot i)
      ((robot.apply (.setJointTargetPosition ⟨0⟩ c.targetPosition)).2.axis i)
      (bodyOf (robot.axis i)) := by
  have hheads := Robot.heads hconfigured hwithin
  by_cases hzero : i = 0
  · subst hzero
    rw [(robot.apply_addressed _ rfl).2]
    exact ⟨hheads.limits_eq, rfl,
      ⟨hheads.carries.position_eq, hheads.carries.velocity_eq⟩, hheads.on⟩
  · have hleft : RobotOperation.Leaves i (heading c robot i)
        (.setJointTargetPosition ⟨0⟩ c.targetPosition) :=
      leaves_operations _ (List.mem_cons_self ..)
    rw [heading, if_neg hzero] at hleft ⊢
    exact hheads.apply hleft

/-- After `n` cycles that have read the command, every joint whose heading is within its
limits has approached it. -/
theorem trajectory_converges (n : Nat) (hconfigured : robot.Configured)
    (hwithin : (robot.axis i).WithinLimits)
    (hlow : (robot.joints i).minPosition.degrees ≤ (heading c robot i).degrees)
    (hhigh : (heading c robot i).degrees ≤ (robot.joints i).maxPosition.degrees) :
    let joint := robot.joints i
    let final := (trajectory robot (List.replicate n (some c))).joints i
    let target := (heading c robot i).degrees
    (final.position.degrees - target) ^ 2 + final.velocity.degreesPerSecond ^ 2 ≤
      25 * Real.exp (-(n / 150000)) *
        ((joint.position.degrees - target) ^ 2 + joint.velocity.degreesPerSecond ^ 2) := by
  intro joint final target
  cases n with
  | zero =>
      have henergy : 0 ≤ (joint.position.degrees - target) ^ 2 +
          joint.velocity.degreesPerSecond ^ 2 := by positivity
      have hsame : final = joint := rfl
      rw [hsame, Nat.cast_zero, zero_div, neg_zero, Real.exp_zero]
      linarith
  | succ n =>
      have hfollows := follows_jointTrack (Robot.heads hconfigured hwithin).limits_eq
      -- the first operation of the first cycle turns joint 1 to the command
      have hstart := heads_command (c := c) hconfigured hwithin
      obtain ⟨rest, hrest⟩ : ∃ rest, (List.replicate (n + 1) (some c)).flatMap operations =
          .setJointTargetPosition ⟨0⟩ c.targetPosition :: rest := ⟨_, rfl⟩
      have hrun : trajectory robot (List.replicate (n + 1) (some c)) =
          (robot.apply (.setJointTargetPosition ⟨0⟩ c.targetPosition)).2.run rest := by
        rw [trajectory_eq_run, hrest, Robot.run_cons]
      have hleaves : ∀ operation ∈ rest, operation.Leaves i (heading c robot i) := by
        intro operation hmem
        have hall := List.mem_cons_of_mem
          (.setJointTargetPosition ⟨0⟩ c.targetPosition) hmem
        rw [← hrest] at hall
        obtain ⟨outcome, houtcome, hoperation⟩ := List.mem_flatMap.mp hall
        obtain rfl := List.eq_of_mem_replicate houtcome
        exact leaves_operations operation hoperation
      have hperiods : Robot.periods rest = List.replicate (n + 1) (1 / 1000) := by
        have hall := periods_operations (c := c) (n + 1)
        rw [hrest] at hall
        exact hall
      have htime : ((List.replicate (n + 1) (1 / 1000 : ℝ)).sum / 150) =
          (n + 1 : Nat) / 150000 := by
        rw [List.sum_replicate, nsmul_eq_mul]
        ring
      have hconverges := hstart.converges hleaves (hfollows.lo.symm.le.trans hlow)
        (hhigh.trans hfollows.hi.le)
      dsimp only at hconverges
      rw [← hrun, hperiods, htime] at hconverges
      exact hconverges

end Heading

end RobotController.Control.ControlLoop

namespace RobotController.System

open RobotController.Foundation RobotController.Core RobotController.Communication
open RobotController.Control RobotController.Synchronization

namespace Controller

/-! ## While no command arrives -/

section Steady

variable {R τ : Type} [Double R]

/-- `command` is the last one published, its publication is complete, and the cycles since
`start` have read it. -/
structure Steady (start : Controller R τ) (command : JointCommand R) (s : Controller R τ) :
    Prop where
  latest : s.commands.history.getLast? = some command
  idle : s.commands.isIdle = true
  quiet : s.cycle = .readingCommand → s.commands.Quiet ()
  outcomes : ∀ outcome ∈ start.outcomesSince s, outcome = some command

variable {start s s' : Controller R τ} {command : JointCommand R}

omit [Double R] in
theorem steady_refl (houtside : s.cycle = .outside) (hidle : s.commands.isIdle = true)
    (hlatest : s.commands.history.getLast? = some command) : s.Steady command s where
  latest := hlatest
  idle := hidle
  quiet := by simp [houtside]
  outcomes := by simp [outcomesSince]

/-- A cycle has acted on its read. -/
theorem Steady.steer (h : start.Steady command s) (hlocked : s.Locked)
    {call : Call CommandCell R (JointCommand R)} {read : Bool × JointCommand R}
    (hphase : s.cycle = .readingCommand) (hcall : s.commands.calls () = some call)
    (hread : call.result = some read) : start.Steady command (s.steer call.since read) := by
  obtain ⟨hok, hlast⟩ := (h.quiet hphase).eq hlocked.commands hcall hread
  have hcommand : read.2 = command := Option.some.inj (hlast.symm.trans h.latest)
  refine ⟨h.latest, h.idle, by simp [Controller.steer], fun outcome hmem => ?_⟩
  have hadded : (s.steer call.since read).outcomes =
      s.outcomes ++ [ControlLoop.outcome read] := by
    simp [Controller.outcomes, Controller.steer]
  rw [outcomesSince, hadded, List.drop_append] at hmem
  rcases List.mem_append.mp hmem with hold | hnew
  · exact h.outcomes outcome hold
  · rw [List.mem_singleton.mp (List.mem_of_mem_drop hnew), ControlLoop.outcome, if_pos hok,
      hcommand]

variable [IntConversion R] [DecidableEq τ] {event : ControllerEvent R τ}

/-- Only the reception of a command changes what the cycles read. -/
theorem Steady.step (h : start.Steady command s) (hlocked : s.Locked) (hstep : Step s event s')
    (hsame : s'.commands.history = s.commands.history) : start.Steady command s' := by
  cases hstep with
  | beginCycle _ _ hbuffer =>
      obtain ⟨hhistory, hidle, -⟩ := hbuffer.of_isRead trivial
      exact ⟨hhistory ▸ h.latest, hidle.trans h.idle, fun _ => .start hbuffer h.idle, h.outcomes⟩
  | accessCommand hphase hbuffer =>
      obtain ⟨hhistory, hidle, -⟩ := hbuffer.of_isRead trivial
      exact ⟨hhistory ▸ h.latest, hidle.trans h.idle,
        fun _ => (h.quiet hphase).step hbuffer h.idle (by simp), h.outcomes⟩
  | steer hphase hcall hread => exact h.steer hlocked hphase hcall hread
  | receiveCommand _ _ hbuffer =>
      have hlonger := congrArg List.length (hbuffer.of_publish.1.symm.trans hsame)
      simp at hlonger
  | writeCommand _ hbuffer =>
      exact absurd h.idle (by simp [hbuffer.not_idle_of_write])
  | publishState _ _ => exact ⟨h.latest, h.idle, by simp, h.outcomes⟩
  | publishSnapshot _ _ _ => exact ⟨h.latest, h.idle, by simp, h.outcomes⟩
  | endCycle _ _ _ _ _ => exact ⟨h.latest, h.idle, by simp, h.outcomes⟩
  | _ => exact ⟨h.latest, h.idle, h.quiet, h.outcomes⟩

theorem commands_history_of_step (hstep : Step s event s') :
    s.commands.history <+: s'.commands.history := by
  rcases commands_of_step hstep with hsame | ⟨_, hbuffer⟩
  · rw [hsame]
  · exact hbuffer.history_prefix

theorem commands_history_of_execution {trace : List (ControllerEvent R τ)}
    (hexec : Execution Step s trace s') : s.commands.history <+: s'.commands.history := by
  induction hexec with
  | refl _ => exact List.prefix_rfl
  | cons hstep _ ih => exact (commands_history_of_step hstep).trans ih

/-- An execution in which no command is published. -/
theorem Steady.execution (h : start.Steady command s) (hs : s.Reached)
    {trace : List (ControllerEvent R τ)} (hexec : Execution Step s trace s')
    (hsame : s'.commands.history = s.commands.history) : start.Steady command s' := by
  induction hexec with
  | refl _ => exact h
  | cons hstep hrest ih =>
      have hfirst := commands_history_of_step hstep
      have hlater := commands_history_of_execution hrest
      rw [hsame] at hlater
      have hmid := hlater.eq_of_length_le hfirst.length_le
      exact ih (h.step hs.locked hstep hmid) (hs.step hstep) (hsame.trans hmid.symm)

/-- Between two iterations of the communication thread nothing is half published. -/
theorem Reached.commandsIdle (h : s.Reached) : s.link ≠ .publishing → s.commands.isIdle = true := by
  refine h.invariant (fun s => s.link ≠ .publishing → s.commands.isIdle = true) ?_
    fun s event s' hs hstep => ?_
  · rintro start ⟨robot, rfl⟩
    exact fun _ => rfl
  · cases hstep with
    | beginCycle _ _ hbuffer =>
        exact fun hlink => (hbuffer.of_isRead trivial).2.1.trans (hs hlink)
    | accessCommand _ hbuffer =>
        exact fun hlink => (hbuffer.of_isRead trivial).2.1.trans (hs hlink)
    | receiveCommand _ _ _ => simp
    | receiveOther hphase _ => exact fun _ => hs (by simp [hphase])
    | writeCommand hphase _ => exact fun hlink => absurd hphase hlink
    | sample hphase _ =>
        rcases hphase with hsampling | ⟨-, hidle⟩
        · exact fun _ => hs (by simp [hsampling])
        · exact fun _ => hidle
    | transmitState hphase _ _ _ => exact fun _ => hs (by simp [hphase])
    | transmitNothing hphase _ _ => exact fun _ => hs (by simp [hphase])
    | _ => exact hs

/-- What the last valid command frame received says, or zero degrees. -/
def lastCommand (s : Controller R τ) : JointCommand R :=
  (commandsOf s.traffic.received).getLast?.getD JointCommand.default

theorem Reached.latest (h : s.Reached) : s.commands.history.getLast? = some s.lastCommand := by
  rw [h.delivered.published, List.getLast?_cons]
  rfl

/-- The states some interleaving reaches around a new robot that has been operated on. -/
def ReachedFromNew (s : Controller R τ) : Prop :=
  Reachable (fun start => ∃ operations, start = initial (Robot.initial.run operations)) Step s

theorem ReachedFromNew.reached (h : s.ReachedFromNew) : s.Reached := by
  obtain ⟨start, trace, ⟨operations, rfl⟩, hexec⟩ := h
  exact ⟨_, trace, ⟨_, rfl⟩, hexec⟩

theorem ReachedFromNew.robot (h : s.ReachedFromNew) :
    ∃ operations, s.robot = Robot.initial.run operations := by
  refine h.invariant (fun s => ∃ operations, s.robot = Robot.initial.run operations) ?_
    fun s event s' hs hstep => ?_
  · rintro start ⟨operations, rfl⟩
    exact ⟨operations, rfl⟩
  · obtain ⟨operations, hrobot⟩ := hs
    obtain ⟨further, hfurther⟩ := exists_run_of_step hstep
    exact ⟨operations ++ further, by rw [hfurther, hrobot, Robot.run_append]⟩

end Steady

/-! ## The way of the robot -/

section Way

variable {τ : Type} [DecidableEq τ]

/-- How far a joint is from resting at a target. -/
def deviation (target : Angle ℝ) (state : JointState ℝ) : ℝ :=
  (state.position.degrees - target.degrees) ^ 2 + state.velocity.degreesPerSecond ^ 2

theorem deviation_nonneg (target : Angle ℝ) (state : JointState ℝ) :
    0 ≤ deviation target state := by
  unfold deviation
  positivity

variable {start s : Controller ℝ τ} {trace : List (ControllerEvent ℝ τ)}

/-- The cycles since `start` have read nothing but its last command. -/
theorem Reached.follows_last (hstart : start.Reached) (houtside : start.cycle = .outside)
    (hlink : start.link ≠ .publishing) (hexec : Execution Step start trace s)
    (hevents : ∀ event ∈ trace, ∀ operation, event ≠ .operate operation)
    (hnone : (commandsOf s.traffic.received : List (JointCommand ℝ)) =
      commandsOf start.traffic.received) :
    ∃ n m, start.Follows n (List.replicate m (some start.lastCommand)) s := by
  obtain ⟨n, since, -, hfollows⟩ := (follows_refl houtside).execution hexec hevents
  have hlater : s.Reached := hstart.execution hexec
  have hsame : s.commands.history = start.commands.history := by
    rw [hlater.delivered.published, hstart.delivered.published, hnone]
  have hsteady := (steady_refl houtside (hstart.commandsIdle hlink) hstart.latest).execution
    hstart hexec hsame
  have hsince : start.outcomesSince s = since := by
    rw [outcomesSince, hfollows.outcomes, List.drop_left]
  have hall := List.eq_replicate_of_mem (hsince ▸ hsteady.outcomes)
  exact ⟨n, since.length, hall ▸ hfollows⟩

/-- The last command steers the robot.  A command frame goes through the bus, the command
buffer and the control cycles.  From a start between two cycles at which it has been published,
as long as no other valid one is received and nobody but the cycles operates on the robot,
whatever frames arrive besides and however the threads interleave: a joint approaches where it
is heading, joint 1 for the command and every other joint for its own target, if that is
within its limits.  In exact arithmetic the square of the distance and of the velocity falls
exponentially in the number of completed cycles, for the robot and in the successive
snapshots. -/
theorem last_command_steers (hstart : start.ReachedFromNew) (houtside : start.cycle = .outside)
    (hlink : start.link ≠ .publishing) (hexec : Execution Step start trace s)
    (hevents : ∀ event ∈ trace, ∀ operation, event ≠ .operate operation)
    (hnone : (commandsOf s.traffic.received : List (JointCommand ℝ)) =
      commandsOf start.traffic.received) (i : Fin jointCount)
    (hlow : (start.robot.joints i).minPosition.degrees ≤
      (ControlLoop.heading start.lastCommand start.robot i).degrees)
    (hhigh : (ControlLoop.heading start.lastCommand start.robot i).degrees ≤
      (start.robot.joints i).maxPosition.degrees) :
    let target := ControlLoop.heading start.lastCommand start.robot i
    let bound : Nat → ℝ := fun n =>
      25 * Real.exp (-(n / 150000)) * deviation target (start.robot.state i)
    (∀ n, s.loop.members.measuredCycles = start.loop.members.measuredCycles + n →
      deviation target (s.robot.state i) ≤ bound n) ∧
    ∀ k state, s.snapshot.history[start.snapshot.history.length + k]? = some state →
      deviation target (state i) ≤ bound (k + 1) := by
  intro target bound
  obtain ⟨operations, hrobot⟩ := hstart.robot
  have hconfigured : start.robot.Configured := hrobot ▸ Robot.configured_run operations
  have hwithin : (start.robot.axis i).WithinLimits := hrobot ▸ Robot.withinLimits_run operations i
  have hled : ∀ m, deviation target ((ControlLoop.trajectory start.robot
      (List.replicate m (some start.lastCommand))).state i) ≤ bound m := fun m =>
    ControlLoop.trajectory_converges m hconfigured hwithin hlow hhigh
  obtain ⟨n', m, hfollows⟩ := hstart.reached.follows_last houtside hlink hexec hevents hnone
  constructor
  · intro n hn
    have hcycles := hfollows.publishes.measured
    have hlength := hfollows.publishes.length
    rw [ControlLoop.length_trajectories, List.length_replicate] at hlength
    have hle : (n : ℝ) ≤ m := by
      have hle : n ≤ m := by omega
      exact_mod_cast hle
    rw [hfollows.robot]
    refine (hled m).trans (mul_le_mul_of_nonneg_right ?_ (deviation_nonneg _ _))
    have hexp : Real.exp (-(m / 150000)) ≤ Real.exp (-(n / 150000)) :=
      Real.exp_le_exp.mpr (by linarith)
    linarith
  · intro k state hstate
    rw [hfollows.publishes.snapshot, List.getElem?_append_right (Nat.le_add_right _ k),
      Nat.add_sub_cancel_left, List.getElem?_map] at hstate
    obtain ⟨robot, hk, rfl⟩ := Option.map_eq_some_iff.mp hstate
    rw [List.getElem?_take, Option.ite_none_right_eq_some] at hk
    obtain ⟨hlt, rfl⟩ := ControlLoop.trajectories_cases hk.2
    rw [List.length_replicate] at hlt
    rw [List.take_replicate, Nat.min_eq_left hlt]
    exact hled (k + 1)

end Way

/-! ## One cycle under a command -/

section OneCycle

/-- A command to ninety degrees. -/
def ninety : CanFrame := JointCommandCodec.commandFrame 9000

/-- The command is transmitted, received and published. -/
def commandOnce : List (ControllerEvent ℝ Unit) :=
  [.external ninety, .receive] ++ List.replicate 3 .writeCommand ++ [.sample]

/-- A run of one cycle, up to the end of the cycle. -/
def steerOnce : List (ControllerEvent ℝ Unit) := startEvents () 1 ++ updateEvents

theorem last_command_steers_once :
    ∃ s : Controller ℝ Unit, s.ReachedFromNew ∧ s.loop.members.measuredCycles = 1 ∧
      deviation ⟨90⟩ (s.robot.state 0) ≤ 25 * Real.exp (-(1 / 150000)) * 90 ^ 2 := by
  have hrun : ∃ start s : Controller ℝ Unit,
      commandOnce.foldlM next (initial Robot.initial) = some start ∧
      start.robot = Robot.initial ∧ start.cycle = .outside ∧ start.link = .reading ∧
      start.traffic.received = [ninety] ∧ start.loop.members.measuredCycles = 0 ∧
      steerOnce.foldlM next start = some s ∧ s.traffic.received = [ninety] ∧
      s.loop.members.measuredCycles = 1 :=
    ⟨_, _, rfl, rfl, rfl, rfl, rfl, rfl, rfl, rfl, rfl⟩
  obtain ⟨start, s, hstart, hrobot, houtside, hlink, hreceived, hnone, hs, hsame, hone⟩ := hrun
  have hexec := Execution.of_schedule (fun _ _ _ => step_of_next) _ hs
  have hreached : start.ReachedFromNew :=
    ⟨_, _, ⟨[], rfl⟩, Execution.of_schedule (fun _ _ _ => step_of_next) _ hstart⟩
  have htarget : ControlLoop.heading start.lastCommand start.robot 0 = ⟨90⟩ := by
    rw [ControlLoop.heading, if_pos rfl, lastCommand, hreceived,
      commandsOf_of_valid ⟨rfl, rfl⟩]
    change (⟨ofInt32 (ninety.word 0) / literal 100⟩ : Angle ℝ) = ⟨90⟩
    have hword : ninety.word 0 = 9000 := JointCommandCodec.word_commandFrame _
    rw [hword]
    have hvalue : (9000 : BitVec 32).toInt = 9000 := rfl
    norm_num [ofInt32, IntConversion.ofInt, hvalue]
  have hlimits : ((Robot.initial : Robot ℝ).axis 0).joint.limits = Robot.limits ℝ 0 :=
    Robot.configured_run [] 0
  obtain ⟨hmin, hmax, -, -⟩ := Simulation.limits_exact hlimits
  have hevents : ∀ event ∈ steerOnce, ∀ operation, event ≠ .operate operation := by
    intro event hmem operation heq
    simp [heq, steerOnce, startEvents, updateEvents] at hmem
  have hstill : deviation ⟨90⟩ ((Robot.initial : Robot ℝ).state 0) = 90 ^ 2 := by
    norm_num [deviation, Robot.state, Robot.initial, Robot.initialJoints, Joint.new, Joint.state]
  have hsteers := (last_command_steers hreached houtside (by simp [hlink]) hexec hevents
    (by rw [hsame, hreceived]) 0 ?_ ?_).1 1 (by omega)
  · rw [htarget, hrobot, hstill] at hsteers
    dsimp only at hsteers
    rw [Nat.cast_one] at hsteers
    exact ⟨s, hreached.execution hexec, hone, hsteers⟩
  · rw [htarget, hrobot]
    refine hmin.le.trans ?_
    norm_num [Robot.positionLimit]
  · rw [htarget, hrobot]
    refine le_trans ?_ hmax.ge
    norm_num [Robot.positionLimit]

end OneCycle

end Controller

end RobotController.System
