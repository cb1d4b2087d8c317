/-
  Core/Joint.lean --- one joint and the motor it drives.

  Sources: `motor/MotorInterface.hpp`, `motor/SimulatedMotor.cpp`,
  `core/Joint.hpp`, `core/Joint.cpp`.

  A `Joint` holds a reference to its motor.  The model keeps that indirection:
  `μ` is the type of motor references, `Motors R μ` the motors they refer to,
  and an operation that writes through the reference returns the new motors.
-/
import RobotController.Core.JointTypes
import Mathlib.Logic.Function.Basic

set_option autoImplicit false

namespace RobotController.Core

open RobotController.Foundation

/-- The only implementation of `MotorInterface`: it stores the latest command. -/
@[ext] structure SimulatedMotor (R : Type) where
  acceleration : AngularAcceleration R
  deriving DecidableEq, Repr

/-- A newly constructed motor holds a zero command. -/
def SimulatedMotor.initial {R : Type} [Double R] : SimulatedMotor R := ⟨⟨0⟩⟩

/-- The motors that references of type `μ` refer to. -/
abbrev Motors (R μ : Type) : Type := μ → SimulatedMotor R

/-- `SimulatedMotor::setAcceleration`, through the reference `motor`. -/
def Motors.setAcceleration {R μ : Type} [DecidableEq μ] (motors : Motors R μ) (motor : μ)
    (acceleration : AngularAcceleration R) : Motors R μ :=
  Function.update motors motor ⟨acceleration⟩

/-- `class Joint`. -/
@[ext] structure Joint (R μ : Type) where
  position : Angle R
  command : JointCommand R
  velocity : AngularVelocity R
  minPosition : Angle R
  maxPosition : Angle R
  maxVelocity : AngularVelocity R
  maxAcceleration : AngularAcceleration R
  motor : μ
  deriving DecidableEq, Repr

namespace Joint

variable {R μ : Type}

section Construction

variable [Double R]

/-- The constructor: at rest at zero degrees, whatever the limits are. -/
def new (minPosition maxPosition : Angle R) (maxVelocity : AngularVelocity R)
    (maxAcceleration : AngularAcceleration R) (motor : μ) : Joint R μ where
  position := ⟨0⟩
  command := JointCommand.default
  velocity := ⟨0⟩
  minPosition := minPosition
  maxPosition := maxPosition
  maxVelocity := maxVelocity
  maxAcceleration := maxAcceleration
  motor := motor

end Construction

section Operations

variable [Double R]

/-- `Joint::initializePosition`. -/
def initializePosition (joint : Joint R μ) (position : Angle R) : Bool × Joint R μ :=
  if position.degrees < joint.minPosition.degrees ∨
      joint.maxPosition.degrees < position.degrees then
    (false, joint)
  else
    (true, { joint with position := position })

/-- `Joint::setTargetPosition`. -/
def setTargetPosition (joint : Joint R μ) (target : Angle R) : Joint R μ :=
  { joint with command := { joint.command with targetPosition := target } }

/-- `Joint::targetPosition`. -/
def targetPosition (joint : Joint R μ) : Angle R := joint.command.targetPosition

/-- `Joint::setAcceleration`: a command beyond the configured limit is rejected
and the motor keeps the command it has. -/
def setAcceleration [DecidableEq μ] (joint : Joint R μ) (motors : Motors R μ)
    (acceleration : AngularAcceleration R) : Bool × Motors R μ :=
  if joint.maxAcceleration.degreesPerSecondSquared < acceleration.degreesPerSecondSquared ∨
      acceleration.degreesPerSecondSquared < -joint.maxAcceleration.degreesPerSecondSquared then
    (false, motors)
  else
    (true, motors.setAcceleration joint.motor acceleration)

/-- `Joint::motorAcceleration`. -/
def motorAcceleration (joint : Joint R μ) (motors : Motors R μ) : AngularAcceleration R :=
  (motors joint.motor).acceleration

/-- `Joint::simulate`. -/
def simulate (joint : Joint R μ) (velocity : AngularVelocity R) (position : Angle R) :
    Joint R μ :=
  { joint with velocity := velocity, position := position }

/-- `Joint::state`. -/
def state (joint : Joint R μ) : JointState R := ⟨joint.position, joint.velocity⟩

end Operations

end Joint

end RobotController.Core
