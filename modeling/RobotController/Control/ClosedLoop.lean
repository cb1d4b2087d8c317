/-
  Control/ClosedLoop.lean --- the closed loop around the target.

  Sources: `core/Robot.cpp` (`update`), `control/PDController.cpp`,
  `simulation/RobotSimulator.cpp`.

  Near its target a joint is a sampled linear system: the controller's request is not
  clamped, the safety layer accepts it, and the simulator reaches no limit.  The loop
  then multiplies a quadratic form of error and velocity by a factor below one, so the
  joint never leaves the region where this is so.
-/
import RobotController.Control.Cycle
import RobotController.Core.Configuration
import RobotController.Foundation.Contraction
import RobotController.Simulation.Displacement

set_option autoImplicit false

namespace RobotController.Core

open RobotController.Foundation RobotController.Control RobotController.Safety
open RobotController.Simulation

variable {K : Type} [Field K] [LinearOrder K]

/-! ## Error and energy -/

section Joints

variable {μ : Type}

/-- How far the joint is beyond its target. -/
def Joint.error (joint : Joint K μ) : K :=
  joint.position.degrees - joint.targetPosition.degrees

/-- The quadratic form at a period of one millisecond. -/
def Joint.energy (joint : Joint K μ) : K :=
  SampledLoop.energy (1 / 1000) joint.error joint.velocity.degreesPerSecond

/-- What the controller would ask for without its limit. -/
def Joint.unlimitedRequest (controller : PDController K) (joint : Joint K μ) : K :=
  controller.positionGain * (joint.targetPosition.degrees - joint.position.degrees) -
    controller.velocityGain * joint.velocity.degreesPerSecond

/-- None of the limits acts on the joint: the request is not clamped, the safety layer
accepts it, and the joint is strictly within its velocity and position limits. -/
structure Joint.Unlimited (controller : PDController K) (joint : Joint K μ) : Prop where
  unclamped : controller.calculate joint.command joint.state =
    ⟨joint.unlimitedRequest controller⟩
  request_lt : |joint.unlimitedRequest controller| <
    controller.maxAcceleration.degreesPerSecondSquared
  validated : SafetyLayer.validate joint (controller.calculate joint.command joint.state) = true
  velocity_lt : |joint.velocity.degreesPerSecond| < joint.maxVelocity.degreesPerSecond
  min_lt_position : joint.minPosition.degrees < joint.position.degrees
  position_lt_max : joint.position.degrees < joint.maxPosition.degrees

theorem Joint.Unlimited.of_own {controller : PDController K} {joint : Joint K μ}
    (h : joint.own.Unlimited controller) : joint.Unlimited controller :=
  ⟨h.unclamped, h.request_lt, h.validated, h.velocity_lt, h.min_lt_position, h.position_lt_max⟩

variable [IsStrictOrderedRing K]

theorem Joint.calculate_of_abs_le {controller : PDController K} {joint : Joint K μ}
    (h : |joint.unlimitedRequest controller| ≤
      controller.maxAcceleration.degreesPerSecondSquared) :
    controller.calculate joint.command joint.state = ⟨joint.unlimitedRequest controller⟩ := by
  obtain ⟨hlow, hhigh⟩ := abs_le.mp h
  exact PDController.calculate_of_mem hlow hhigh

/-- With the gains of the robot the request is that of the sampled loop. -/
theorem Joint.unlimitedRequest_controller (joint : Joint K μ) :
    joint.unlimitedRequest Robot.controller =
      SampledLoop.request joint.error joint.velocity.degreesPerSecond := by
  simp only [unlimitedRequest, Robot.controller, PDController.new, SampledLoop.request,
    Joint.error, literal_exact]
  push_cast
  ring

/-! ## Bounds from the energy -/

theorem Joint.sq_error_le (joint : Joint K μ) : 900 * joint.error ^ 2 ≤ 961 * joint.energy := by
  unfold energy SampledLoop.energy
  nlinarith [sq_nonneg (61 * joint.error +
    961 * (999 / 2000) / 2 * joint.velocity.degreesPerSecond),
    sq_nonneg joint.velocity.degreesPerSecond]

theorem Joint.sq_velocity_le (joint : Joint K μ) :
    900 * joint.velocity.degreesPerSecond ^ 2 ≤ 961 * joint.energy := by
  unfold energy SampledLoop.energy
  nlinarith [sq_nonneg (961 * joint.error +
    961 * (999 / 2000) / 2 * joint.velocity.degreesPerSecond),
    sq_nonneg joint.velocity.degreesPerSecond]

theorem Joint.abs_error_le {joint : Joint K μ} (h : joint.energy ≤ 225) :
    |joint.error| ≤ 31 / 2 := by
  refine abs_le_of_sq_le_sq ?_ (by norm_num)
  linarith [joint.sq_error_le]

theorem Joint.abs_velocity_le {joint : Joint K μ} (h : joint.energy ≤ 225) :
    |joint.velocity.degreesPerSecond| ≤ 31 / 2 := by
  refine abs_le_of_sq_le_sq ?_ (by norm_num)
  linarith [joint.sq_velocity_le]

/-! ## The basin -/

/-- The joint is configured as those of a robot are, its target is well inside the
position limits, and its energy is small. -/
structure Joint.InBasin (joint : Joint K μ) : Prop where
  maxVelocity : joint.maxVelocity.degreesPerSecond = 60
  maxAcceleration : joint.maxAcceleration.degreesPerSecondSquared = 30
  min_le_target : joint.minPosition.degrees + 16 ≤ joint.targetPosition.degrees
  target_le_max : joint.targetPosition.degrees + 16 ≤ joint.maxPosition.degrees
  energy_le : joint.energy ≤ 225

theorem Joint.InBasin.abs_request_le {joint : Joint K μ} (h : joint.InBasin) :
    |joint.unlimitedRequest Robot.controller| ≤ 24 := by
  rw [joint.unlimitedRequest_controller, SampledLoop.request, abs_le]
  have herror := abs_le.mp (abs_error_le h.energy_le)
  have hvelocity := abs_le.mp (abs_velocity_le h.energy_le)
  constructor <;> linarith

/-- In the basin no limit acts. -/
theorem Joint.InBasin.unlimited {joint : Joint K μ} (h : joint.InBasin) :
    joint.Unlimited Robot.controller := by
  have hlimit : (Robot.controller : PDController K).maxAcceleration.degreesPerSecondSquared =
      30 := by
    simp [Robot.controller, PDController.new]
  have hrequest := h.abs_request_le
  have hunclamped : Robot.controller.calculate joint.command joint.state =
      ⟨joint.unlimitedRequest Robot.controller⟩ :=
    Joint.calculate_of_abs_le (by linarith)
  have hbounds := abs_le.mp hrequest
  have herror := abs_le.mp (abs_error_le h.energy_le)
  have hvelocity := abs_velocity_le h.energy_le
  have hlow := h.min_le_target
  have hhigh := h.target_le_max
  refine ⟨hunclamped, by linarith, ?_, ?_, ?_, ?_⟩
  · rw [hunclamped, SafetyLayer.validate_iff, h.maxAcceleration]
    constructor <;> linarith
  · rw [h.maxVelocity]
    linarith
  · unfold Joint.error at herror
    linarith
  · unfold Joint.error at herror
    linarith

end Joints

/-! ## One update -/

namespace Axis

variable [IsStrictOrderedRing K] {axis : Axis K}

/-- The axis after one period of the sampled loop. -/
def sampled (axis : Axis K) : Axis K :=
  let e := axis.joint.error
  let v := axis.joint.velocity.degreesPerSecond
  { joint :=
      { axis.joint with
        position := ⟨axis.joint.targetPosition.degrees + SampledLoop.nextError (1 / 1000) e v⟩
        velocity := ⟨SampledLoop.nextVelocity (1 / 1000) e v⟩ }
    motor := ⟨⟨SampledLoop.request e v⟩⟩ }

theorem energy_sampled (axis : Axis K) :
    axis.sampled.joint.energy = SampledLoop.factor (1 / 1000) * axis.joint.energy := by
  have herror : axis.sampled.joint.error = SampledLoop.nextError (1 / 1000) axis.joint.error
      axis.joint.velocity.degreesPerSecond :=
    add_sub_cancel_left _ _
  rw [Joint.energy, herror]
  exact SampledLoop.energy_next _ _ _

/-- The basin is kept. -/
theorem inBasin_sampled (h : axis.joint.InBasin) : axis.sampled.joint.InBasin := by
  refine ⟨h.maxVelocity, h.maxAcceleration, h.min_le_target, h.target_le_max, ?_⟩
  have hpos : 0 < SampledLoop.factor (1 / 1000 : K) := SampledLoop.factor_pos _
  have hlt : SampledLoop.factor (1 / 1000 : K) < 1 :=
    SampledLoop.factor_lt_one (by norm_num) (by norm_num)
  rw [axis.energy_sampled]
  have henergy := h.energy_le
  nlinarith

/-- The command given in the basin is the request. -/
theorem control_of_inBasin (h : axis.joint.InBasin) :
    axis.control Robot.controller =
      { axis with
        motor := ⟨⟨SampledLoop.request axis.joint.error axis.joint.velocity.degreesPerSecond⟩⟩ } := by
  have hunlimited := h.unlimited
  have hgranted : axis.granted Robot.controller =
      ⟨SampledLoop.request axis.joint.error axis.joint.velocity.degreesPerSecond⟩ := by
    rw [← axis.joint.unlimitedRequest_controller, ← hunlimited.unclamped]
    exact if_pos hunlimited.validated
  have hadmitted : ¬ axis.joint.Exceeds
      ⟨SampledLoop.request axis.joint.error axis.joint.velocity.degreesPerSecond⟩ := by
    rw [Joint.not_exceeds_iff, h.maxAcceleration, ← axis.joint.unlimitedRequest_controller]
    linarith [h.abs_request_le]
  rw [control_eq, hgranted, setAcceleration, Joint.setAcceleration_of_not_exceeds hadmitted]
  simp [Motors.setAcceleration]

/-- In the basin one update is one period of the sampled loop. -/
theorem update_of_inBasin (h : axis.joint.InBasin) :
    axis.update Robot.controller ⟨1 / 1000⟩ = axis.sampled := by
  have hnext := inBasin_sampled h
  have hvelocity : axis.joint.velocity.degreesPerSecond = initialVelocity axis.joint := by
    have hbounds := abs_lt.mp h.unlimited.velocity_lt
    exact (stdClamp_of_mem hbounds.1.le hbounds.2.le).symm
  have hafter := abs_lt.mp hnext.unlimited.velocity_lt
  have hbefore := abs_lt.mp h.unlimited.velocity_lt
  have hnew : newPosition ⟨1 / 1000⟩ axis.joint
      (SampledLoop.request axis.joint.error axis.joint.velocity.degreesPerSecond) =
        axis.sampled.joint.position.degrees := by
    rw [newPosition, ← hvelocity,
      displacement_of_mem (by norm_num) hbefore ⟨hafter.1.le, hafter.2.le⟩]
    simp only [sampled, SampledLoop.nextError, Joint.error]
    ring
  have hfinal : finalVelocity ⟨1 / 1000⟩ axis.joint
      (SampledLoop.request axis.joint.error axis.joint.velocity.degreesPerSecond) =
        axis.sampled.joint.velocity.degreesPerSecond := by
    rw [finalVelocity, ← hvelocity]
    exact stdClamp_of_mem hafter.1.le hafter.2.le
  have hlow := hnext.unlimited.min_lt_position
  have hhigh := hnext.unlimited.position_lt_max
  rw [← hnew] at hlow hhigh
  unfold Axis.update
  rw [if_neg (by norm_num), control_of_inBasin h,
    simulate_of_between (not_le.mpr hlow) (not_le.mpr hhigh)]
  simp only [hnew, hfinal]
  rfl

end Axis

/-! ## The loop -/

namespace Robot

theorem Configured.inBasin {robot : Robot K} (h : robot.Configured) {i : Fin jointCount}
    (hlow : (robot.joints i).minPosition.degrees + 16 ≤
      (robot.joints i).targetPosition.degrees)
    (hhigh : (robot.joints i).targetPosition.degrees + 16 ≤
      (robot.joints i).maxPosition.degrees)
    (henergy : (robot.joints i).energy ≤ 225) : (robot.axis i).joint.InBasin := by
  have hlimits := h i
  simp only [Joint.limits, limits, Limits.mk.injEq] at hlimits
  obtain ⟨-, -, hvelocity, hacceleration⟩ := hlimits
  refine ⟨?_, ?_, hlow, hhigh, henergy⟩
  · have hdegrees := congrArg AngularVelocity.degreesPerSecond hvelocity
    simp only [literal_exact, Rat.cast_ofNat] at hdegrees
    exact hdegrees
  · have hdegrees := congrArg AngularAcceleration.degreesPerSecondSquared hacceleration
    simp only [literal_exact, Rat.cast_ofNat] at hdegrees
    exact hdegrees

variable [IsStrictOrderedRing K]

/-- `Robot::update` contracts the energy of each joint in its basin. -/
theorem contracts_update (i : Fin jointCount) :
    Contracts (update ⟨1 / 1000⟩) (fun robot : Robot K => (robot.axis i).joint.InBasin)
      (fun robot => (robot.axis i).joint.energy) (SampledLoop.factor (1 / 1000)) where
  maps robot h := by
    rw [robot.axis_update, Axis.update_of_inBasin h]
    exact Axis.inBasin_sampled h
  scales robot h := by
    rw [robot.axis_update, Axis.update_of_inBasin h]
    exact Axis.energy_sampled _

/-- In the basin error and velocity are bounded by the energy left after `n` updates. -/
theorem sq_le_of_inBasin {robot : Robot K} {i : Fin jointCount}
    (h : (robot.axis i).joint.InBasin) (n : Nat) :
    ((((update ⟨1 / 1000⟩)^[n] robot).joints i).error) ^ 2 ≤
        (31 / 2) ^ 2 * SampledLoop.factor (1 / 1000) ^ n ∧
      ((((update ⟨1 / 1000⟩)^[n] robot).joints i).velocity.degreesPerSecond) ^ 2 ≤
        (31 / 2) ^ 2 * SampledLoop.factor (1 / 1000) ^ n := by
  have hscaled : (((update ⟨1 / 1000⟩)^[n] robot).joints i).energy =
      SampledLoop.factor (1 / 1000) ^ n * (robot.axis i).joint.energy :=
    ((contracts_update i).iterate h n).2
  have hpow : 0 ≤ SampledLoop.factor (1 / 1000 : K) ^ n :=
    pow_nonneg (SampledLoop.factor_pos _).le n
  have henergy : (((update ⟨1 / 1000⟩)^[n] robot).joints i).energy ≤
      SampledLoop.factor (1 / 1000) ^ n * 225 := by
    rw [hscaled]
    exact mul_le_mul_of_nonneg_left h.energy_le hpow
  constructor
  · linarith [(((update ⟨1 / 1000⟩)^[n] robot).joints i).sq_error_le]
  · linarith [(((update ⟨1 / 1000⟩)^[n] robot).joints i).sq_velocity_le]

/-- The 1 ms closed loop is stable around the target.  From every state of a joint with
its target at least 16 degrees inside both limits and `Q(e, v) ≤ 225`, and for every
`n`: after `n` updates no limit acts on the joint, the next update gives its motor the
request itself and multiplies `Q`, a positive definite form, by `1 - h/2 + h^2/2`.
Error and velocity are bounded by a constant times the `n`-th power of the root of that
factor, and a state comes back only if the joint is at rest at its target. -/
theorem closed_loop_stable (robot : Robot K) (hconfigured : robot.Configured)
    (i : Fin jointCount)
    (hlow : (robot.joints i).minPosition.degrees + 16 ≤
      (robot.joints i).targetPosition.degrees)
    (hhigh : (robot.joints i).targetPosition.degrees + 16 ≤
      (robot.joints i).maxPosition.degrees)
    (henergy : (robot.joints i).energy ≤ 225) :
    let h : K := 1 / 1000
    let factor : K := 1 - h / 2 + h ^ 2 / 2
    let after := fun n : Nat => (update ⟨h⟩)^[n] robot
    let e := fun n : Nat => ((after n).joints i).position.degrees -
      (robot.joints i).targetPosition.degrees
    let v := fun n : Nat => ((after n).joints i).velocity.degreesPerSecond
    let Q := fun e v : K => e ^ 2 + (1 - h) / 2 * e * v + (1 - h / 4) * v ^ 2
    (∀ e v, 0 ≤ Q e v ∧ (Q e v = 0 ↔ e = 0 ∧ v = 0)) ∧
    (∀ n, ((after n).joints i).Unlimited controller ∧
      (((after (n + 1)).joints i).motorAcceleration
          (after (n + 1)).motors).degreesPerSecondSquared =
        ((after n).joints i).unlimitedRequest controller ∧
      Q (e (n + 1)) (v (n + 1)) = factor * Q (e n) (v n)) ∧
    (∀ n, (e n) ^ 2 ≤ (31 / 2) ^ 2 * factor ^ n ∧ (v n) ^ 2 ≤ (31 / 2) ^ 2 * factor ^ n) ∧
    (∀ root, 0 ≤ root → root ^ 2 = factor →
      ∀ n, |e n| ≤ 31 / 2 * root ^ n ∧ |v n| ≤ 31 / 2 * root ^ n) ∧
    ∀ m n, m < n → e m = e n → v m = v n → e m = 0 ∧ v m = 0 := by
  intro h factor after e v Q
  have hbasin := hconfigured.inBasin hlow hhigh henergy
  have hcontracts := contracts_update (K := K) i
  have herror (n : Nat) : ((after n).joints i).error = e n := by
    rw [Joint.error, Joint.targetPosition, command_iterate_update]
    rfl
  have hQ (n : Nat) : ((after n).axis i).joint.energy = Q (e n) (v n) := by
    change ((after n).joints i).energy = _
    rw [Joint.energy, herror]
    rfl
  have hbounds (n : Nat) : (e n) ^ 2 ≤ (31 / 2) ^ 2 * factor ^ n ∧
      (v n) ^ 2 ≤ (31 / 2) ^ 2 * factor ^ n := by
    rw [← herror n]
    exact sq_le_of_inBasin hbasin n
  have hdefinite (e v : K) : 0 ≤ Q e v ∧ (Q e v = 0 ↔ e = 0 ∧ v = 0) :=
    ⟨SampledLoop.energy_nonneg (by norm_num) (by norm_num),
      SampledLoop.energy_eq_zero_iff (by norm_num) (by norm_num)⟩
  refine ⟨hdefinite, fun n => ⟨?_, ?_, ?_⟩, hbounds, ?_, ?_⟩
  · exact .of_own (hcontracts.iterate hbasin n).1.unlimited
  · have hnext : (after (n + 1)).axis i = ((after n).axis i).sampled := by
      have hupdate := (after n).axis_update ⟨1 / 1000⟩ i
      rw [Axis.update_of_inBasin (hcontracts.iterate hbasin n).1] at hupdate
      rw [← hupdate]
      exact congrArg (fun robot => robot.axis i) (Function.iterate_succ_apply' _ n robot)
    rw [Joint.motorAcceleration, (after (n + 1)).wired i, Joint.unlimitedRequest_controller]
    exact congrArg (fun axis => axis.motor.acceleration.degreesPerSecondSquared) hnext
  · rw [← hQ, ← hQ]
    have hscales := hcontracts.scales _ (hcontracts.iterate hbasin n).1
    rw [← Function.iterate_succ_apply' (update ⟨1 / 1000⟩) n robot] at hscales
    exact hscales
  · intro root hroot hsquare n
    have hnonneg : 0 ≤ 31 / 2 * root ^ n := by positivity
    have hpower : (31 / 2 * root ^ n) ^ 2 = (31 / 2) ^ 2 * factor ^ n := by
      rw [mul_pow, ← pow_mul, mul_comm n 2, pow_mul, hsquare]
    exact ⟨abs_le_of_sq_le_sq (hpower ▸ (hbounds n).1) hnonneg,
      abs_le_of_sq_le_sq (hpower ▸ (hbounds n).2) hnonneg⟩
  · intro m n hmn he hv
    have hreturn : ((after m).axis i).joint.energy = ((after n).axis i).joint.energy := by
      rw [hQ, hQ, he, hv]
    have hzero := hcontracts.energy_eq_zero_of_return hbasin (SampledLoop.factor_pos _)
      (SampledLoop.factor_lt_one (by norm_num) (by norm_num)) hmn hreturn
    exact (hdefinite _ _).2.mp ((hQ m).symm.trans hzero)

/-- Joint 1 of a new robot, aimed at ten degrees. -/
theorem closed_loop_stable_aimed :
    let robot : Robot ℚ := initial.run [.setJointTargetPosition ⟨0⟩ ⟨10⟩]
    ∀ n, ((((update ⟨1 / 1000⟩)^[n] robot).joints 0).position.degrees - 10) ^ 2 ≤
      (31 / 2) ^ 2 * (1 - 1 / 1000 / 2 + (1 / 1000) ^ 2 / 2) ^ n := by
  intro robot n
  have hstable := closed_loop_stable robot (configured_run _) 0 (by decide +kernel)
    (by decide +kernel) (by decide +kernel)
  exact (hstable.2.2.1 n).1

end Robot

end RobotController.Core
