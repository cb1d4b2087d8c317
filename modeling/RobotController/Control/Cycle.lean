/-
  Control/Cycle.lean --- one control cycle, what it publishes, and cycles without
  a CAN command.

  Sources: `control/ControlLoop.hpp`, `control/ControlLoop.cpp` (`update`).

  A cycle reads the command buffer, steers joint 1 when the read succeeds,
  advances the robot and publishes its state twice.  Here a cycle runs with no
  other thread between its accesses; the interleavings are those of
  `System/System.lean`.
-/
import RobotController.Communication.CanCommandBuffer
import RobotController.Communication.CanStateBuffer
import RobotController.Core.Axis
import RobotController.Synchronization.SnapshotBuffer
import Mathlib.Logic.Function.Iterate

set_option autoImplicit false

namespace RobotController.Core

open RobotController.Foundation RobotController.Simulation

/-! ## Targets -/

section Targets

variable {R : Type}

/-- Setting the target joint 1 has changes nothing. -/
theorem Robot.setJointTargetPosition_self (robot : Robot R) {target : Angle R}
    (h : (robot.joints 0).targetPosition = target) :
    (robot.setJointTargetPosition ⟨0⟩ target).2 = robot := by
  subst h
  exact Robot.ext rfl (Function.update_eq_self 0 robot.joints)

variable [Double R]

theorem command_updateJoint {μ : Type} [DecidableEq μ] (dt : Duration R) (joint : Joint R μ)
    (motors : Motors R μ) : (updateJoint dt joint motors).1.command = joint.command := by
  simp only [updateJoint]
  split_ifs <;> rfl

/-- `Robot::update` changes no command. -/
theorem Robot.command_update (robot : Robot R) (dt : Duration R) (i : Fin jointCount) :
    ((robot.update dt).joints i).command = (robot.joints i).command := by
  have haxis := congrArg (fun axis => axis.joint.command) (robot.axis_update dt i)
  refine haxis.trans ?_
  unfold Axis.update
  split
  · rfl
  · exact command_updateJoint dt _ _

theorem Robot.command_iterate_update (robot : Robot R) (dt : Duration R) (i : Fin jointCount)
    (n : Nat) : (((update dt)^[n] robot).joints i).command = (robot.joints i).command := by
  induction n with
  | zero => rfl
  | succ n ih => rw [Function.iterate_succ_apply', command_update, ih]

end Targets

end RobotController.Core

namespace RobotController.Control

open RobotController.Foundation RobotController.Core RobotController.Communication
open RobotController.Synchronization

variable {R : Type} [Double R]

/-! ## A control cycle -/

namespace ControlLoop

/-- `dt_`. -/
def dt : Duration R := ⟨literal (1 / 1000)⟩

/-- What a cycle does with the result of its command read: "CAN currently controls
joint 1". -/
def steer (command : Bool × JointCommand R) (robot : Robot R) : Robot R :=
  if command.1 then (robot.setJointTargetPosition ⟨0⟩ command.2.targetPosition).2 else robot

/-- The objects a cycle works on: `robot_`, `can_commands_`, `can_state_` and
`state_snapshot_`. -/
structure Shared (R : Type) where
  robot : Robot R
  canCommands : Memory CommandCell R
  canState : Memory StateCell R
  stateSnapshot : Memory SnapshotCell R

/-- New buffers around a robot. -/
def start (robot : Robot R) : Shared R where
  robot := robot
  canCommands := CanCommandBuffer.memory
  canState := CanStateBuffer.memory
  stateSnapshot := SnapshotBuffer.memory

/-- `ControlLoop::update`, less its timing statistics. -/
def update (s : Shared R) : Shared R :=
  let command := (CanCommandBuffer.read JointCommand.default).run s.canCommands
  let robot := (steer command.1 s.robot).update dt
  let robotState := robot.state
  { robot := robot
    canCommands := command.2
    canState := ((CanStateBuffer.publish (robotState 0)).run s.canState).2
    stateSnapshot := ((SnapshotBuffer.publish robot.state).run s.stateSnapshot).2 }

/-- `n` control cycles. -/
def cycles (n : Nat) (s : Shared R) : Shared R := update^[n] s

/-! ## What a cycle leaves in the buffers -/

/-- No publication is in progress in the buffers a cycle writes. -/
structure Settled (s : Shared R) : Prop where
  canState : s.canState.sequence &&& 1 = 0
  stateSnapshot : s.stateSnapshot.sequence &&& 1 = 0

theorem settled_start (robot : Robot R) : Settled (start robot) where
  canState := BitVec.zero_and
  stateSnapshot := BitVec.zero_and

theorem Settled.update {s : Shared R} (h : Settled s) : Settled (update s) where
  canState := (CanStateBuffer.implements fun _ => 0).even_run_publish h.canState _
  stateSnapshot := SnapshotBuffer.implements.even_run_publish h.stateSnapshot _

theorem settled_cycles (robot : Robot R) (n : Nat) : Settled (cycles n (start robot)) := by
  induction n with
  | zero => exact settled_start robot
  | succ n ih =>
      rw [cycles, Function.iterate_succ_apply']
      exact ih.update

/-- After every cycle both buffers read as the state of the robot. -/
theorem read_cycles_succ (robot : Robot R) (n : Nat) (given : JointState R)
    (candidate : RobotState R) :
    ((CanStateBuffer.read given).run (cycles (n + 1) (start robot)).canState).1 =
        (true, (cycles (n + 1) (start robot)).robot.state 0) ∧
      ((SnapshotBuffer.read candidate).run (cycles (n + 1) (start robot)).stateSnapshot).1 =
        (true, (cycles (n + 1) (start robot)).robot.state) := by
  have hsettled := settled_cycles robot n
  rw [cycles, Function.iterate_succ_apply']
  exact ⟨(CanStateBuffer.implements fun _ => 0).run_read_published hsettled.canState _ given,
    SnapshotBuffer.implements.run_read_published hsettled.stateSnapshot _ candidate⟩

/-! ## Cycles before the first command -/

/-- A new command buffer reads as a command of zero degrees. -/
theorem run_read_memory (command : JointCommand R) :
    (CanCommandBuffer.read command).run CanCommandBuffer.memory =
      ((true, JointCommand.default), CanCommandBuffer.memory) :=
  (CanCommandBuffer.implements fun _ => 0).run_read BitVec.zero_and command

/-- Before the first command every cycle steers joint 1 to zero degrees. -/
theorem update_of_memory {s : Shared R} (h : s.canCommands = CanCommandBuffer.memory) :
    (update s).robot = (s.robot.setJointTargetPosition ⟨0⟩ ⟨0⟩).2.update dt ∧
      (update s).canCommands = CanCommandBuffer.memory := by
  simp only [update, h, run_read_memory, steer, if_true]
  exact ⟨rfl, trivial⟩

theorem canCommands_cycles (robot : Robot R) (n : Nat) :
    (cycles n (start robot)).canCommands = CanCommandBuffer.memory := by
  induction n with
  | zero => rfl
  | succ n ih =>
      rw [cycles, Function.iterate_succ_apply']
      exact (update_of_memory ih).2

/-- One more cycle. -/
theorem robot_cycles_succ (robot : Robot R) (n : Nat) :
    (cycles (n + 1) (start robot)).robot =
      ((cycles n (start robot)).robot.setJointTargetPosition ⟨0⟩ ⟨0⟩).2.update dt := by
  rw [cycles, Function.iterate_succ_apply']
  exact (update_of_memory (canCommands_cycles robot n)).1

/-- After a cycle without a command the target of joint 1 is zero degrees. -/
theorem target_cycles_succ (robot : Robot R) (n : Nat) :
    ((cycles (n + 1) (start robot)).robot.joints 0).targetPosition = ⟨0⟩ := by
  rw [robot_cycles_succ, Joint.targetPosition, Robot.command_update]
  rfl

/-- A robot whose joint 1 is already aimed at zero degrees is not affected. -/
theorem robot_cycles_of_target (robot : Robot R) (h : (robot.joints 0).targetPosition = ⟨0⟩)
    (n : Nat) : (cycles n (start robot)).robot = (Robot.update dt)^[n] robot := by
  induction n with
  | zero => rfl
  | succ n ih =>
      have htarget : (((Robot.update dt)^[n] robot).joints 0).targetPosition = ⟨0⟩ := by
        rw [Joint.targetPosition, Robot.command_iterate_update]
        exact h
      rw [robot_cycles_succ, ih, Robot.setJointTargetPosition_self _ htarget,
        Function.iterate_succ_apply']

/-- Control cycles with no CAN command published are robot updates exactly when
there are none, or when joint 1 is aimed at zero degrees already. -/
theorem cycles_eq_updates_iff (robot : Robot R) (n : Nat) :
    ((cycles n (start robot)).robot = (Robot.update dt)^[n] robot ∧
        ((cycles n (start robot)).robot.joints 0).targetPosition =
          (robot.joints 0).targetPosition) ↔
      n = 0 ∨ (robot.joints 0).targetPosition = ⟨0⟩ := by
  constructor
  · rintro ⟨-, htarget⟩
    cases n with
    | zero => exact .inl rfl
    | succ n => exact .inr (htarget.symm.trans (target_cycles_succ robot n))
  · rintro (rfl | h)
    · exact ⟨rfl, rfl⟩
    · refine ⟨robot_cycles_of_target robot h n, ?_⟩
      rw [robot_cycles_of_target robot h n, Joint.targetPosition, Robot.command_iterate_update]
      rfl

/-- A robot whose joint 1 was aimed at twenty degrees. -/
def aimed : Robot ℚ := (Robot.initial.setJointTargetPosition ⟨0⟩ ⟨20⟩).2

/-- One cycle with no CAN command published turns joint 1 back to zero degrees. -/
theorem cycles_aimed_ne_updates :
    ¬ ((cycles 1 (start aimed)).robot = (Robot.update dt)^[1] aimed ∧
      ((cycles 1 (start aimed)).robot.joints 0).targetPosition =
        (aimed.joints 0).targetPosition) := by
  rintro ⟨-, htarget⟩
  rw [target_cycles_succ] at htarget
  have hdegrees : (0 : ℚ) = 20 := congrArg Angle.degrees htarget
  norm_num at hdegrees

/-- A robot whose joint 1 has been placed at forty-five degrees. -/
def placed : Robot ℚ := (Robot.initial.initializeJointPosition ⟨0⟩ ⟨45⟩).2

/-- Where a cycle leads it that reads the command of a fresh buffer. -/
theorem state_placed : ((steer (true, JointCommand.default) placed).update dt).state 0 =
    ⟨⟨8999997 / 200000⟩, ⟨-3 / 100⟩⟩ := by decide +kernel

end ControlLoop

end RobotController.Control
