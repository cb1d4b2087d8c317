/-
  Simulation/Kinematics.lean --- the simulator step is exact saturated
  kinematics.

  Over the reals the case split of `displacement` is one closed expression: the
  integral of the saturated velocity over the step.
-/
import RobotController.Core.Axis
import RobotController.Foundation.Saturation
import RobotController.Simulation.Displacement

set_option autoImplicit false

namespace RobotController.Simulation

open RobotController.Foundation RobotController.Core

/-! ## The displacement is the integral -/

section Displacement

variable {V v a T : ℝ}

theorem stdClamp_eq_clamp {lo hi x : ℝ} (h : lo ≤ hi) : stdClamp x lo hi = clamp lo hi x :=
  stdClamp_eq_max_min h

theorem stdClamp_eq_saturate (hV : 0 ≤ V) : stdClamp v (-V) V = saturate V v :=
  stdClamp_eq_clamp (neg_le_self hV)

theorem displacement_eq_travel_of_pos (hV : 0 ≤ V) (hT : 0 < T) (hv : -V ≤ v ∧ v ≤ V)
    (ha : 0 < a) : displacement V v a T = travel V v a T := by
  rcases le_or_gt V v with hlimit | hlimit
  · rw [displacement_of_limit_le hT ha hlimit, travel_of_limit_le hV hT.le ha.le hlimit]
  · rcases le_or_gt (v + a * T) V with hend | hreach
    · have hlow : -V ≤ v + a * T := hv.1.trans (le_add_of_nonneg_right (by positivity))
      rw [displacement_of_not_reaches hT ha hlimit hend, travel_of_mem hT.le hv ⟨hlow, hend⟩]
    · have htime : 0 ≤ (V - v) / a := div_nonneg (sub_nonneg.mpr hlimit.le) ha.le
      have hlate : (V - v) / a ≤ T := by
        rw [div_le_iff₀ ha]
        linarith
      have hvelocity : v + a * ((V - v) / a) = V := by
        field_simp
        ring
      rw [displacement_of_reaches hT ha hlimit hreach,
        travel_of_reaches hV htime hlate ha.le hv hvelocity]

/-- Every branch of the source, and every boundary between two of them, agrees
with the integral of the saturated velocity. -/
theorem displacement_eq_travel (hV : 0 ≤ V) (hT : 0 < T) (hv : -V ≤ v ∧ v ≤ V) :
    displacement V v a T = travel V v a T := by
  rcases lt_trichotomy a 0 with ha | rfl | ha
  · -- The branches for a negative acceleration mirror the others.
    have hmirror : displacement V (-v) (-a) T = travel V (-v) (-a) T :=
      displacement_eq_travel_of_pos hV hT ⟨neg_le_neg hv.2, neg_le.mp hv.1⟩ (neg_pos.mpr ha)
    rw [displacement_neg hV, travel_neg hV] at hmirror
    exact neg_injective hmirror
  · have hend : -V ≤ v + 0 * T ∧ v + 0 * T ≤ V := by simpa using hv
    rw [displacement_zero, stdClamp_of_mem hv.1 hv.2, travel_of_mem hT.le hv hend]
    ring
  · exact displacement_eq_travel_of_pos hV hT hv ha

end Displacement

/-! ## One axis -/

section Axis

variable {axis : Axis ℝ} {dt : Duration ℝ}

/-- Where the joint would be at the end of the step if there were no position
stop. -/
noncomputable def freePosition (axis : Axis ℝ) (dt : Duration ℝ) : ℝ :=
  let V := axis.joint.maxVelocity.degreesPerSecond
  axis.joint.position.degrees +
    travel V (saturate V axis.joint.velocity.degreesPerSecond)
      axis.motor.acceleration.degreesPerSecondSquared dt.seconds

theorem newPosition_eq_freePosition (hV : 0 ≤ axis.joint.maxVelocity.degreesPerSecond)
    (hdt : 0 < dt.seconds) :
    newPosition dt axis.joint axis.motor.acceleration.degreesPerSecondSquared =
      freePosition axis dt := by
  have hrange := And.intro
    (neg_le_saturate axis.joint.maxVelocity.degreesPerSecond
      axis.joint.velocity.degreesPerSecond)
    (saturate_le (x := axis.joint.velocity.degreesPerSecond) hV)
  simp only [newPosition, initialVelocity, freePosition]
  rw [stdClamp_eq_saturate hV, displacement_eq_travel hV hdt hrange]

theorem finalVelocity_eq_saturate (hV : 0 ≤ axis.joint.maxVelocity.degreesPerSecond) :
    finalVelocity dt axis.joint axis.motor.acceleration.degreesPerSecondSquared =
      saturate axis.joint.maxVelocity.degreesPerSecond
        (saturate axis.joint.maxVelocity.degreesPerSecond
            axis.joint.velocity.degreesPerSecond +
          axis.motor.acceleration.degreesPerSecondSquared * dt.seconds) := by
  simp only [finalVelocity, initialVelocity]
  rw [stdClamp_eq_saturate hV, stdClamp_eq_saturate hV]

theorem acceleration_stopAt (hA : 0 ≤ axis.joint.maxAcceleration.degreesPerSecondSquared)
    (limit : Angle ℝ) : (axis.stopAt limit).motor.acceleration = ⟨0⟩ := by
  simp only [Axis.stopAt, Axis.setAcceleration,
    Joint.setAcceleration_of_not_exceeds (Joint.not_exceeds_zero hA)]
  rfl

/-- What one step does to one axis, in terms of the free position. -/
structure SaturatedStep (axis : Axis ℝ) (dt : Duration ℝ) (after : Axis ℝ) : Prop where
  position : after.joint.position.degrees =
    clamp axis.joint.minPosition.degrees axis.joint.maxPosition.degrees (freePosition axis dt)
  between : axis.joint.minPosition.degrees < freePosition axis dt →
    freePosition axis dt < axis.joint.maxPosition.degrees →
      after.joint.velocity.degreesPerSecond =
        saturate axis.joint.maxVelocity.degreesPerSecond
          (saturate axis.joint.maxVelocity.degreesPerSecond
              axis.joint.velocity.degreesPerSecond +
            axis.motor.acceleration.degreesPerSecondSquared * dt.seconds) ∧
        after.motor = axis.motor
  stopped : ¬ (axis.joint.minPosition.degrees < freePosition axis dt ∧
      freePosition axis dt < axis.joint.maxPosition.degrees) →
    after.joint.velocity.degreesPerSecond = 0 ∧
      (0 ≤ axis.joint.maxAcceleration.degreesPerSecondSquared →
        after.motor.acceleration = ⟨0⟩)

theorem saturatedStep_simulate (hV : 0 ≤ axis.joint.maxVelocity.degreesPerSecond)
    (hlimits : axis.joint.minPosition.degrees ≤ axis.joint.maxPosition.degrees)
    (hdt : 0 < dt.seconds) : SaturatedStep axis dt (axis.simulate dt) := by
  have hnew := newPosition_eq_freePosition hV hdt
  by_cases hmin : freePosition axis dt ≤ axis.joint.minPosition.degrees
  · rw [Axis.simulate_of_le_min (hnew.trans_le hmin)]
    exact ⟨(clamp_of_le_lo hmin).symm, fun h => absurd hmin (not_le.mpr h),
      fun _ => ⟨rfl, fun hA => acceleration_stopAt hA _⟩⟩
  · by_cases hmax : axis.joint.maxPosition.degrees ≤ freePosition axis dt
    · rw [Axis.simulate_of_max_le (hnew ▸ hmin) (hnew ▸ hmax)]
      exact ⟨(clamp_of_hi_le hlimits hmax).symm, fun _ h => absurd hmax (not_le.mpr h),
        fun _ => ⟨rfl, fun hA => acceleration_stopAt hA _⟩⟩
    · have hlow := not_le.mp hmin
      have hhigh := not_le.mp hmax
      rw [Axis.simulate_of_between (hnew ▸ hmin) (hnew ▸ hmax)]
      exact ⟨hnew.trans (clamp_of_mem hlow.le hhigh.le).symm,
        fun _ _ => ⟨finalVelocity_eq_saturate hV, rfl⟩,
        fun h => absurd ⟨hlow, hhigh⟩ h⟩

/-- The three ends of a step: stopped at the lower limit, stopped at the upper limit, or
between them. -/
theorem SaturatedStep.cases {after : Axis ℝ} (h : SaturatedStep axis dt after)
    (hlimits : axis.joint.minPosition.degrees ≤ axis.joint.maxPosition.degrees)
    (hA : 0 ≤ axis.joint.maxAcceleration.degreesPerSecondSquared) :
    (freePosition axis dt ≤ axis.joint.minPosition.degrees ∧
        after.joint.position = axis.joint.minPosition ∧ after.joint.velocity = ⟨0⟩ ∧
        after.motor.acceleration = ⟨0⟩) ∨
      (axis.joint.minPosition.degrees < freePosition axis dt ∧
        axis.joint.maxPosition.degrees ≤ freePosition axis dt ∧
        after.joint.position = axis.joint.maxPosition ∧ after.joint.velocity = ⟨0⟩ ∧
        after.motor.acceleration = ⟨0⟩) ∨
      (axis.joint.minPosition.degrees < freePosition axis dt ∧
        freePosition axis dt < axis.joint.maxPosition.degrees ∧
        after.joint.position = ⟨freePosition axis dt⟩ ∧
        after.joint.velocity = ⟨saturate axis.joint.maxVelocity.degreesPerSecond
          (saturate axis.joint.maxVelocity.degreesPerSecond
              axis.joint.velocity.degreesPerSecond +
            axis.motor.acceleration.degreesPerSecondSquared * dt.seconds)⟩ ∧
        after.motor = axis.motor) := by
  have hposition := h.position
  rcases le_or_gt (freePosition axis dt) axis.joint.minPosition.degrees with hlow | hlow
  · obtain ⟨hvelocity, hmotor⟩ :=
      h.stopped fun hbetween => absurd hlow (not_le.mpr hbetween.1)
    rw [clamp_of_le_lo hlow] at hposition
    exact .inl ⟨hlow, Angle.ext hposition, AngularVelocity.ext hvelocity, hmotor hA⟩
  · rcases le_or_gt axis.joint.maxPosition.degrees (freePosition axis dt) with hhigh | hhigh
    · obtain ⟨hvelocity, hmotor⟩ :=
        h.stopped fun hbetween => absurd hhigh (not_le.mpr hbetween.2)
      rw [clamp_of_hi_le hlimits hhigh] at hposition
      exact .inr (.inl ⟨hlow, hhigh, Angle.ext hposition, AngularVelocity.ext hvelocity,
        hmotor hA⟩)
    · obtain ⟨hvelocity, hmotor⟩ := h.between hlow hhigh
      rw [clamp_of_mem hlow.le hhigh.le] at hposition
      exact .inr (.inr ⟨hlow, hhigh, Angle.ext hposition, AngularVelocity.ext hvelocity, hmotor⟩)

end Axis

/-! ## A span of joints -/

/-- `RobotSimulator::update` equals exact saturated kinematics: for every joint of
a span whose joints drive motors of their own, with `D` the integral of the
saturated velocity, the position is `p + D` stopped at the limits; strictly
between them the velocity is the saturated final one and the motor keeps its
command, and at a limit the joint rests with its motor command cleared. -/
theorem RobotSimulator.update_eq_saturated_kinematics {μ : Type} [DecidableEq μ] {n : Nat}
    (joints : Fin n → Joint ℝ μ) (motors : Motors ℝ μ) (dt : Duration ℝ) (i : Fin n)
    (hmotors : Function.Injective fun k => (joints k).motor)
    (hV : 0 ≤ (joints i).maxVelocity.degreesPerSecond)
    (hlimits : (joints i).minPosition.degrees ≤ (joints i).maxPosition.degrees)
    (hdt : 0 < dt.seconds) :
    let V := (joints i).maxVelocity.degreesPerSecond
    let lo := (joints i).minPosition.degrees
    let hi := (joints i).maxPosition.degrees
    let p := (joints i).position.degrees
    let a := ((joints i).motorAcceleration motors).degreesPerSecondSquared
    let v₀ := clamp (-V) V (joints i).velocity.degreesPerSecond
    let D := ∫ t in (0 : ℝ)..dt.seconds, clamp (-V) V (v₀ + a * t)
    let after := RobotSimulator.update dt joints motors
    (after.1 i).position.degrees = clamp lo hi (p + D) ∧
    (lo < p + D → p + D < hi →
      (after.1 i).velocity.degreesPerSecond = clamp (-V) V (v₀ + a * dt.seconds) ∧
        (after.1 i).motorAcceleration after.2 = (joints i).motorAcceleration motors) ∧
    (¬ (lo < p + D ∧ p + D < hi) →
      (after.1 i).velocity.degreesPerSecond = 0 ∧
        (0 ≤ (joints i).maxAcceleration.degreesPerSecondSquared →
          (after.1 i).motorAcceleration after.2 = ⟨0⟩)) := by
  intro V lo hi p a v₀ D after
  have haxis : axisOf i after = (axisOf i (joints, motors)).simulate dt := by
    rw [axisOf_update dt hmotors, if_neg (not_le.mpr hdt)]
  have hstep : SaturatedStep (axisOf i (joints, motors)) dt (axisOf i after) := by
    rw [haxis]
    exact saturatedStep_simulate hV hlimits hdt
  refine ⟨hstep.position, ?_, hstep.stopped⟩
  intro hlow hhigh
  obtain ⟨hvelocity, hmotor⟩ := hstep.between hlow hhigh
  exact ⟨hvelocity, congrArg SimulatedMotor.acceleration hmotor⟩

/-- A joint that starts at rest at zero and accelerates at `1` for one second,
well inside its limits. -/
theorem RobotSimulator.update_eq_saturated_kinematics_single :
    let joints : Fin 1 → Joint ℝ (Fin 1) := fun _ => Joint.new ⟨-10⟩ ⟨10⟩ ⟨2⟩ ⟨3⟩ 0
    let motors : Motors ℝ (Fin 1) := fun _ => ⟨⟨1⟩⟩
    ((RobotSimulator.update ⟨1⟩ joints motors).1 0).position.degrees =
      clamp (-10) 10
        (0 + ∫ t in (0 : ℝ)..1, clamp (-2) 2 (clamp (-2) 2 0 + 1 * t)) :=
  (RobotSimulator.update_eq_saturated_kinematics
    (fun _ : Fin 1 => Joint.new (R := ℝ) ⟨-10⟩ ⟨10⟩ ⟨2⟩ ⟨3⟩ (0 : Fin 1)) (fun _ => ⟨⟨1⟩⟩) ⟨1⟩ 0
    (Function.injective_of_subsingleton _) (by norm_num [Joint.new]) (by norm_num [Joint.new])
    (by norm_num)).1

end RobotController.Simulation
