/-
  Simulation/RobotSimulator.lean --- one step of the simulated physics.

  Source: `simulation/RobotSimulator.cpp`.

  `RobotSimulator::update` is one loop over the span of joints.  Its body is cut
  at the places where the source itself announces a new computation: the
  starting and the final velocity (lines 28--49), the displacement of the step
  (lines 51--120) and the write-back with the two position stops (122--149).
-/
import RobotController.Core.Joint
import RobotController.Foundation.Sweep

set_option autoImplicit false

namespace RobotController.Simulation

open RobotController.Foundation RobotController.Core

variable {R μ : Type} [Double R]

/-- The displacement of one step, accounting for the velocity limit. -/
def displacement (maxVelocity initialVelocity acceleration elapsedSeconds : R) : R :=
  let unconstrainedVelocity := initialVelocity + acceleration * elapsedSeconds
  let finalVelocity := stdClamp unconstrainedVelocity (-maxVelocity) maxVelocity
  if 0 < elapsedSeconds ∧ acceleration ≠ 0 then
    -- The velocity limit in the direction of the acceleration.
    let targetVelocity := if 0 < acceleration then maxVelocity else -maxVelocity
    if (0 < acceleration ∧ maxVelocity ≤ initialVelocity) ∨
        (acceleration < 0 ∧ initialVelocity ≤ -maxVelocity) then
      targetVelocity * elapsedSeconds
    else
      let timeToLimit := (targetVelocity - initialVelocity) / acceleration
      if 0 < timeToLimit ∧ timeToLimit < elapsedSeconds ∧
          ((0 < acceleration ∧ maxVelocity < unconstrainedVelocity) ∨
            (acceleration < 0 ∧ unconstrainedVelocity < -maxVelocity)) then
        let acceleratingDistance :=
          initialVelocity * timeToLimit +
            literal (1 / 2) * acceleration * timeToLimit * timeToLimit
        let remainingTime := elapsedSeconds - timeToLimit
        let constantSpeedDistance := targetVelocity * remainingTime
        acceleratingDistance + constantSpeedDistance
      else
        initialVelocity * elapsedSeconds +
          literal (1 / 2) * acceleration * elapsedSeconds * elapsedSeconds
  else
    finalVelocity * elapsedSeconds

/-- The starting velocity: "recover safely if the starting state is already
outside the speed limits". -/
def initialVelocity (joint : Joint R μ) : R :=
  let maxVelocity := joint.maxVelocity.degreesPerSecond
  stdClamp joint.velocity.degreesPerSecond (-maxVelocity) maxVelocity

/-- The velocity after the step, within the configured limits. -/
def finalVelocity (dt : Duration R) (joint : Joint R μ) (acceleration : R) : R :=
  let maxVelocity := joint.maxVelocity.degreesPerSecond
  stdClamp (initialVelocity joint + acceleration * dt.seconds) (-maxVelocity) maxVelocity

/-- The position after the step, before the position stops. -/
def newPosition (dt : Duration R) (joint : Joint R μ) (acceleration : R) : R :=
  joint.position.degrees +
    displacement joint.maxVelocity.degreesPerSecond (initialVelocity joint) acceleration
      dt.seconds

/-- The body of the loop of `RobotSimulator::update` for one joint: its new
state and the motors after the write-back. -/
def updateJoint [DecidableEq μ] (dt : Duration R) (joint : Joint R μ) (motors : Motors R μ) :
    Joint R μ × Motors R μ :=
  let acceleration := (joint.motorAcceleration motors).degreesPerSecondSquared
  if newPosition dt joint acceleration ≤ joint.minPosition.degrees then
    (joint.simulate ⟨0⟩ joint.minPosition, (joint.setAcceleration motors ⟨0⟩).2)
  else if joint.maxPosition.degrees ≤ newPosition dt joint acceleration then
    (joint.simulate ⟨0⟩ joint.maxPosition, (joint.setAcceleration motors ⟨0⟩).2)
  else
    (joint.simulate ⟨finalVelocity dt joint acceleration⟩
      ⟨newPosition dt joint acceleration⟩, motors)

section Cases

variable [DecidableEq μ] {dt : Duration R} {joint : Joint R μ} {motors : Motors R μ}

/-- The lower position stop. -/
theorem updateJoint_of_le_min
    (h : newPosition dt joint (joint.motorAcceleration motors).degreesPerSecondSquared ≤
      joint.minPosition.degrees) :
    updateJoint dt joint motors =
      (joint.simulate ⟨0⟩ joint.minPosition, (joint.setAcceleration motors ⟨0⟩).2) :=
  if_pos h

/-- The upper position stop. -/
theorem updateJoint_of_max_le
    (hmin : ¬ newPosition dt joint (joint.motorAcceleration motors).degreesPerSecondSquared ≤
      joint.minPosition.degrees)
    (hmax : joint.maxPosition.degrees ≤
      newPosition dt joint (joint.motorAcceleration motors).degreesPerSecondSquared) :
    updateJoint dt joint motors =
      (joint.simulate ⟨0⟩ joint.maxPosition, (joint.setAcceleration motors ⟨0⟩).2) :=
  (if_neg hmin).trans (if_pos hmax)

/-- The step between the position stops. -/
theorem updateJoint_of_between
    (hmin : ¬ newPosition dt joint (joint.motorAcceleration motors).degreesPerSecondSquared ≤
      joint.minPosition.degrees)
    (hmax : ¬ joint.maxPosition.degrees ≤
      newPosition dt joint (joint.motorAcceleration motors).degreesPerSecondSquared) :
    updateJoint dt joint motors =
      (joint.simulate
        ⟨finalVelocity dt joint (joint.motorAcceleration motors).degreesPerSecondSquared⟩
        ⟨newPosition dt joint (joint.motorAcceleration motors).degreesPerSecondSquared⟩,
        motors) :=
  (if_neg hmin).trans (if_neg hmax)

end Cases

/-- One iteration of the loop over the span. -/
def updateAt [DecidableEq μ] {n : Nat} (dt : Duration R) (i : Fin n)
    (s : (Fin n → Joint R μ) × Motors R μ) : (Fin n → Joint R μ) × Motors R μ :=
  let updated := updateJoint dt (s.1 i) s.2
  (Function.update s.1 i updated.1, updated.2)

/-- `RobotSimulator::update` on a span of joints: non-positive time steps leave
everything unchanged. -/
def RobotSimulator.update [DecidableEq μ] {n : Nat} (dt : Duration R)
    (joints : Fin n → Joint R μ) (motors : Motors R μ) : (Fin n → Joint R μ) × Motors R μ :=
  if dt.seconds ≤ 0 then
    (joints, motors)
  else
    sweep (updateAt dt) (List.finRange n) (joints, motors)

end RobotController.Simulation
