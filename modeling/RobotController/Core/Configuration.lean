/-
  Core/Configuration.lean --- the limits of a joint are configured once.

  The constructor of a `Joint` stores its limits, and nothing else writes them: every
  joint of every robot keeps the limits `Robot.hpp` gives it.
-/
import RobotController.Core.JointLimits

set_option autoImplicit false

namespace RobotController.Core

open RobotController.Foundation RobotController.Control RobotController.Simulation

/-- What the constructor of a joint stores for good. -/
@[ext] structure Limits (R : Type) where
  minPosition : Angle R
  maxPosition : Angle R
  maxVelocity : AngularVelocity R
  maxAcceleration : AngularAcceleration R
  deriving DecidableEq, Repr

/-- The limits of a joint. -/
def Joint.limits {R μ : Type} (joint : Joint R μ) : Limits R :=
  ⟨joint.minPosition, joint.maxPosition, joint.maxVelocity, joint.maxAcceleration⟩

/-- The limits of joint `i` of every robot. -/
def Robot.limits (R : Type) [Double R] (i : Fin jointCount) : Limits R where
  minPosition := ⟨literal (-Robot.positionLimit i)⟩
  maxPosition := ⟨literal (Robot.positionLimit i)⟩
  maxVelocity := ⟨literal 60⟩
  maxAcceleration := ⟨literal 30⟩

section Kept

variable {R : Type} [Double R]

theorem limits_updateJoint {μ : Type} [DecidableEq μ] (dt : Duration R) (joint : Joint R μ)
    (motors : Motors R μ) : (updateJoint dt joint motors).1.limits = joint.limits := by
  simp only [updateJoint]
  split_ifs <;> rfl

namespace Axis

theorem limits_update (axis : Axis R) (controller : PDController R) (dt : Duration R) :
    (axis.update controller dt).joint.limits = axis.joint.limits := by
  unfold Axis.update
  split
  · rfl
  · exact limits_updateJoint dt _ _

theorem limits_apply (axis : Axis R) (controller : PDController R)
    (operation : AxisOperation R) :
    (axis.apply controller operation).2.joint.limits = axis.joint.limits := by
  cases operation with
  | initializePosition position =>
      simp only [Axis.apply, Axis.initializePosition, Joint.initializePosition]
      split_ifs <;> rfl
  | setTargetPosition target => rfl
  | setAcceleration acceleration => rfl
  | update dt => exact axis.limits_update controller dt

theorem limits_run (controller : PDController R) (operations : List (AxisOperation R))
    (axis : Axis R) :
    (axis.run controller operations).joint.limits = axis.joint.limits := by
  refine Axis.run_keeps (fun current => current.joint.limits = axis.joint.limits) ?_
    operations axis rfl
  intro current operation h
  exact (current.limits_apply controller operation).trans h

end Axis

namespace Robot

theorem limits_initial (i : Fin jointCount) :
    ((initial : Robot R).joints i).limits = limits R i := by
  simp only [initial, initialJoints_apply]
  rfl

/-- A robot whose joints have the limits of `Robot.hpp`. -/
def Configured (robot : Robot R) : Prop := ∀ i, (robot.joints i).limits = limits R i

/-- No operation changes a limit. -/
theorem configured_run (operations : List (RobotOperation R)) :
    ((initial : Robot R).run operations).Configured := by
  intro i
  have haxis := congrArg (fun axis => axis.joint.limits) (axis_run i operations initial)
  exact haxis.trans ((Axis.limits_run controller _ _).trans (limits_initial i))

end Robot

end Kept

end RobotController.Core
