/-
  Safety/SafetyLayer.lean --- the check between controller and joint.

  Source: `safety/SafetyLayer.cpp`.
-/
import RobotController.Core.Joint

set_option autoImplicit false

namespace RobotController.Safety

open RobotController.Foundation RobotController.Core

/-- `SafetyLayer::validate`: accept only finite accelerations inside the
inclusive limits of the joint. -/
def SafetyLayer.validate {R μ : Type} [Double R] (joint : Joint R μ)
    (requested : AngularAcceleration R) : Bool :=
  let value := requested.degreesPerSecondSquared
  let limit := joint.maxAcceleration.degreesPerSecondSquared
  if !isFinite value || !isFinite limit then
    false
  else
    decide (value ≤ limit) && decide (-limit ≤ value)

/-- In exact arithmetic the check is the two-sided bound. -/
theorem SafetyLayer.validate_iff {K μ : Type} [Field K] [LinearOrder K]
    {joint : Joint K μ} {requested : AngularAcceleration K} :
    SafetyLayer.validate joint requested = true ↔
      requested.degreesPerSecondSquared ≤ joint.maxAcceleration.degreesPerSecondSquared ∧
        -joint.maxAcceleration.degreesPerSecondSquared ≤
          requested.degreesPerSecondSquared := by
  simp [SafetyLayer.validate]

end RobotController.Safety
