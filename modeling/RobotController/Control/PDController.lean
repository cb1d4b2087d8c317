/-
  Control/PDController.lean --- the proportional-derivative controller.

  Sources: `control/PDControllerConfig.hpp`, `control/PDController.cpp`.
-/
import RobotController.Core.JointTypes

set_option autoImplicit false

namespace RobotController.Control

open RobotController.Foundation RobotController.Core

/-- The parameters of a PD controller. -/
structure PDControllerConfig (R : Type) where
  positionGain : R
  velocityGain : R
  maxAcceleration : AngularAcceleration R

/-- `class PDController`. -/
structure PDController (R : Type) where
  positionGain : R
  velocityGain : R
  maxAcceleration : AngularAcceleration R

namespace PDController

variable {R : Type}

/-- The constructor. -/
def new (config : PDControllerConfig R) : PDController R :=
  ⟨config.positionGain, config.velocityGain, config.maxAcceleration⟩

/-- `PDController::calculate`: the PD law, then the two one-sided limits in the
order of the source. -/
def calculate [Double R] (controller : PDController R) (command : JointCommand R)
    (actualState : JointState R) : AngularAcceleration R :=
  let positionError := command.targetPosition.degrees - actualState.position.degrees
  let acceleration :=
    controller.positionGain * positionError -
      controller.velocityGain * actualState.velocity.degreesPerSecond
  let maxAcceleration := controller.maxAcceleration.degreesPerSecondSquared
  let limitedAcceleration :=
    if maxAcceleration < acceleration then maxAcceleration else acceleration
  let limitedAcceleration :=
    if limitedAcceleration < -maxAcceleration then -maxAcceleration else limitedAcceleration
  ⟨limitedAcceleration⟩

/-- A request within the limit is not clamped. -/
theorem calculate_of_mem {K : Type} [Field K] [LinearOrder K] {controller : PDController K}
    {command : JointCommand K} {state : JointState K}
    (hlow : -controller.maxAcceleration.degreesPerSecondSquared ≤
      controller.positionGain * (command.targetPosition.degrees - state.position.degrees) -
        controller.velocityGain * state.velocity.degreesPerSecond)
    (hhigh : controller.positionGain *
        (command.targetPosition.degrees - state.position.degrees) -
      controller.velocityGain * state.velocity.degreesPerSecond ≤
        controller.maxAcceleration.degreesPerSecondSquared) :
    controller.calculate command state =
      ⟨controller.positionGain * (command.targetPosition.degrees - state.position.degrees) -
        controller.velocityGain * state.velocity.degreesPerSecond⟩ := by
  simp only [calculate, if_neg (not_lt.mpr hhigh), if_neg (not_lt.mpr hlow)]

end PDController

end RobotController.Control
