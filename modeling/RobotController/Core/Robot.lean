/-
  Core/Robot.lean --- the six-joint robot and its operations.

  Sources: `core/Robot.hpp`, `core/Robot.cpp`.
-/
import RobotController.Control.PDController
import RobotController.Safety.SafetyLayer
import RobotController.Simulation.RobotSimulator
import Mathlib.Data.Fin.VecNotation

set_option autoImplicit false

namespace RobotController.Core

open RobotController.Foundation RobotController.Control RobotController.Safety
open RobotController.Simulation

/-! ## References are never re-seated

`motor_` is a reference member, bound once by the constructor.  The lemmas say
so of every function that returns a joint. -/

section References

variable {R μ : Type}

@[simp] theorem Joint.motor_setTargetPosition (joint : Joint R μ) (target : Angle R) :
    (joint.setTargetPosition target).motor = joint.motor := rfl

@[simp] theorem Joint.motor_simulate (joint : Joint R μ) (velocity : AngularVelocity R)
    (position : Angle R) : (joint.simulate velocity position).motor = joint.motor := rfl

variable [Double R]

@[simp] theorem Joint.motor_initializePosition (joint : Joint R μ) (position : Angle R) :
    (joint.initializePosition position).2.motor = joint.motor := by
  unfold Joint.initializePosition
  split <;> rfl

variable [DecidableEq μ]

@[simp] theorem motor_updateJoint (dt : Duration R) (joint : Joint R μ) (motors : Motors R μ) :
    (updateJoint dt joint motors).1.motor = joint.motor := by
  simp only [updateJoint]
  split_ifs <;> rfl

theorem motor_updateAt {n : Nat} (dt : Duration R) (i j : Fin n)
    (s : (Fin n → Joint R μ) × Motors R μ) :
    ((updateAt dt i s).1 j).motor = (s.1 j).motor := by
  unfold updateAt
  rcases eq_or_ne j i with rfl | hne
  · simp
  · simp [Function.update_of_ne hne]

@[simp] theorem motor_update {n : Nat} (dt : Duration R) (joints : Fin n → Joint R μ)
    (motors : Motors R μ) (j : Fin n) :
    ((RobotSimulator.update dt joints motors).1 j).motor = (joints j).motor := by
  unfold RobotSimulator.update
  split
  · rfl
  · refine sweep_keeps
      (fun s : (Fin n → Joint R μ) × Motors R μ => (s.1 j).motor = (joints j).motor) ?_ _ _ rfl
    exact fun i s h => (motor_updateAt dt i j s).trans h

end References

/-! ## The controller loop -/

section ControllerLoop

variable {R μ : Type} [Double R] [DecidableEq μ]

/-- The body of the first loop of `Robot::update`: request, validate, apply; an
unsafe request is replaced by zero acceleration. -/
def controlJoint (controller : PDController R) (joint : Joint R μ) (motors : Motors R μ) :
    Motors R μ :=
  let actualState := joint.state
  let command := joint.command
  let requestedAcceleration := controller.calculate command actualState
  if SafetyLayer.validate joint requestedAcceleration then
    (joint.setAcceleration motors requestedAcceleration).2
  else
    (joint.setAcceleration motors ⟨0⟩).2

/-- The first loop of `Robot::update`. -/
def controlJoints {n : Nat} (controller : PDController R) (joints : Fin n → Joint R μ)
    (motors : Motors R μ) : Motors R μ :=
  sweep (fun i current => controlJoint controller (joints i) current) (List.finRange n) motors

end ControllerLoop

/-! ## The robot -/

/-- `class Robot`.  Joint `i` drives motor `i`: the constructor binds the
references so, and no operation can change them. -/
@[ext] structure Robot (R : Type) where
  motors : Motors R (Fin jointCount)
  joints : Fin jointCount → Joint R (Fin jointCount)
  wired : ∀ i, (joints i).motor = i

namespace Robot

variable {R : Type} [Double R]

/-- `controller_`. -/
def controller : PDController R :=
  PDController.new ⟨literal 1, literal (1 / 2), ⟨literal 30⟩⟩

/-- `joints_`, as `Robot.hpp` initializes it. -/
def initialJoints : Fin jointCount → Joint R (Fin jointCount) :=
  ![Joint.new ⟨literal (-180)⟩ ⟨literal 180⟩ ⟨literal 60⟩ ⟨literal 30⟩ 0,
    Joint.new ⟨literal (-90)⟩ ⟨literal 90⟩ ⟨literal 60⟩ ⟨literal 30⟩ 1,
    Joint.new ⟨literal (-180)⟩ ⟨literal 180⟩ ⟨literal 60⟩ ⟨literal 30⟩ 2,
    Joint.new ⟨literal (-180)⟩ ⟨literal 180⟩ ⟨literal 60⟩ ⟨literal 30⟩ 3,
    Joint.new ⟨literal (-90)⟩ ⟨literal 90⟩ ⟨literal 60⟩ ⟨literal 30⟩ 4,
    Joint.new ⟨literal (-180)⟩ ⟨literal 180⟩ ⟨literal 60⟩ ⟨literal 30⟩ 5]

/-- A new robot. -/
def initial : Robot R where
  motors := fun _ => SimulatedMotor.initial
  joints := initialJoints
  wired := by
    simp [Fin.forall_fin_succ, jointCount, initialJoints, Joint.new]

/-- `Robot::state`. -/
def state (robot : Robot R) : RobotState R := fun i => (robot.joints i).state

/-- Replace joint `i` by one that drives the same motor. -/
def setJoint (robot : Robot R) (i : Fin jointCount) (joint : Joint R (Fin jointCount))
    (h : joint.motor = (robot.joints i).motor) : Robot R where
  motors := robot.motors
  joints := Function.update robot.joints i joint
  wired := by
    intro j
    rcases eq_or_ne j i with rfl | hne
    · rw [Function.update_self, h]
      exact robot.wired j
    · rw [Function.update_of_ne hne]
      exact robot.wired j

/-- `Robot::initializeJointPosition`. -/
def initializeJointPosition (robot : Robot R) (index : JointIndex) (position : Angle R) :
    Bool × Robot R :=
  if h : index.value < jointCount then
    let joint := robot.joints ⟨index.value, h⟩
    let initialized := joint.initializePosition position
    (initialized.1,
      robot.setJoint ⟨index.value, h⟩ initialized.2 (joint.motor_initializePosition position))
  else
    (false, robot)

/-- `Robot::setJointTargetPosition`. -/
def setJointTargetPosition (robot : Robot R) (index : JointIndex) (target : Angle R) :
    Bool × Robot R :=
  if h : index.value < jointCount then
    let joint := robot.joints ⟨index.value, h⟩
    (true, robot.setJoint ⟨index.value, h⟩ (joint.setTargetPosition target)
      (joint.motor_setTargetPosition target))
  else
    (false, robot)

/-- `Robot::setJointAcceleration`. -/
def setJointAcceleration (robot : Robot R) (index : JointIndex)
    (acceleration : AngularAcceleration R) : Bool × Robot R :=
  if h : index.value < jointCount then
    let commanded :=
      (robot.joints ⟨index.value, h⟩).setAcceleration robot.motors acceleration
    (commanded.1, { robot with motors := commanded.2 })
  else
    (false, robot)

/-- `Robot::update`: all motor commands are prepared before the simulation
advances. -/
def update (dt : Duration R) (robot : Robot R) : Robot R where
  motors :=
    (RobotSimulator.update dt robot.joints
      (controlJoints controller robot.joints robot.motors)).2
  joints :=
    (RobotSimulator.update dt robot.joints
      (controlJoints controller robot.joints robot.motors)).1
  wired := fun i => (motor_update dt _ _ i).trans (robot.wired i)

end Robot

end RobotController.Core
