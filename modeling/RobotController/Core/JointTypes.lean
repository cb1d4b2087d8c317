/-
  Core/JointTypes.lean --- the strong types of the sources.

  Sources: `core/Angle.hpp`, `core/AngularVelocity.hpp`,
  `core/AngularAcceleration.hpp`, `core/Duration.hpp`, `core/JointTypes.hpp`.

  Each class of the sources that wraps one `double` is a structure of one field,
  named after its accessor, so that an angle is never taken for a velocity.
-/
import RobotController.Foundation.Double

set_option autoImplicit false

namespace RobotController.Core

open RobotController.Foundation

/-- An angle, in degrees. -/
@[ext] structure Angle (R : Type) where
  degrees : R
  deriving DecidableEq, Repr

/-- An angular velocity, in degrees per second. -/
@[ext] structure AngularVelocity (R : Type) where
  degreesPerSecond : R
  deriving DecidableEq, Repr

/-- An angular acceleration, in degrees per second squared. -/
@[ext] structure AngularAcceleration (R : Type) where
  degreesPerSecondSquared : R
  deriving DecidableEq, Repr

/-- A duration, in seconds. -/
@[ext] structure Duration (R : Type) where
  seconds : R
  deriving DecidableEq, Repr

/-- `joint_count`: the arm has six joints. -/
abbrev jointCount : Nat := 6

instance : NeZero jointCount := ⟨Nat.succ_ne_zero 5⟩

/-- The position of a joint in the robot; the callers may pass any value. -/
structure JointIndex where
  value : Nat
  deriving DecidableEq, Repr

/-- What a joint is currently doing. -/
@[ext] structure JointState (R : Type) where
  position : Angle R
  velocity : AngularVelocity R
  deriving DecidableEq, Repr

/-- What we want a joint to do. -/
@[ext] structure JointCommand (R : Type) where
  targetPosition : Angle R
  deriving DecidableEq, Repr

/-- A snapshot of all six joint states. -/
abbrev RobotState (R : Type) : Type := Fin jointCount → JointState R

section Defaults

variable {R : Type} [Double R]

/-- `JointState{}`: at rest at zero degrees. -/
def JointState.default : JointState R := ⟨⟨0⟩, ⟨0⟩⟩

/-- `JointCommand{}`: "a zero-degree target is a safe initial command". -/
def JointCommand.default : JointCommand R := ⟨⟨0⟩⟩

/-- `RobotState{}`. -/
def RobotState.default : RobotState R := fun _ => JointState.default

end Defaults

end RobotController.Core
