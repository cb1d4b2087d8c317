/-
  Simulation/PositionLimits.lean --- the position limits inside a step.

  The position stops compare the position at the end of a step.  A joint that reaches a
  limit, turns and comes back within the step is not stopped.  This file says exactly
  when a step stops the joint at the first limit it reaches.
-/
import RobotController.Foundation.FirstLimit
import RobotController.Simulation.Kinematics

set_option autoImplicit false

namespace RobotController.Simulation

open RobotController.Foundation RobotController.Core

/-! ## One axis -/

section Axis

variable {axis : Axis ℝ} {dt : Duration ℝ}

/-- Where the joint is after a time `t` of the step, if nothing stops it. -/
noncomputable def motion (axis : Axis ℝ) (t : ℝ) : ℝ :=
  axis.joint.position.degrees +
    travel axis.joint.maxVelocity.degreesPerSecond axis.joint.velocity.degreesPerSecond
      axis.motor.acceleration.degreesPerSecondSquared t

/-- The joint rests at the limit. -/
structure RestsAt (axis : Axis ℝ) (limit : ℝ) : Prop where
  position : axis.joint.position.degrees = limit
  velocity : axis.joint.velocity.degreesPerSecond = 0
  motor : axis.motor.acceleration = ⟨0⟩

theorem freePosition_eq_motion
    (hv : |axis.joint.velocity.degreesPerSecond| ≤ axis.joint.maxVelocity.degreesPerSecond) :
    freePosition axis dt = motion axis dt.seconds := by
  obtain ⟨hlow, hhigh⟩ := abs_le.mp hv
  rw [freePosition, saturate_of_mem hlow hhigh]
  rfl

/-- A step leaves the joint at rest at a limit exactly when it ends there. -/
theorem restsAt_simulate_iff (hA : 0 ≤ axis.joint.maxAcceleration.degreesPerSecondSquared)
    (hp : axis.joint.minPosition.degrees ≤ axis.joint.position.degrees ∧
      axis.joint.position.degrees ≤ axis.joint.maxPosition.degrees)
    (hv : |axis.joint.velocity.degreesPerSecond| ≤ axis.joint.maxVelocity.degreesPerSecond)
    (hdt : 0 < dt.seconds) {limit : ℝ}
    (hlimit : limit = axis.joint.maxPosition.degrees ∨
      limit = axis.joint.minPosition.degrees) :
    RestsAt (axis.simulate dt) limit ↔
      clamp axis.joint.minPosition.degrees axis.joint.maxPosition.degrees
        (motion axis dt.seconds) = limit := by
  have hstep : SaturatedStep axis dt (axis.simulate dt) :=
    saturatedStep_simulate ((abs_nonneg _).trans hv) (hp.1.trans hp.2) hdt
  have hend : freePosition axis dt = motion axis dt.seconds := freePosition_eq_motion hv
  constructor
  · intro h
    rw [← hend, ← hstep.position, h.position]
  · intro hclamp
    have hstopped : ¬ (axis.joint.minPosition.degrees < freePosition axis dt ∧
        freePosition axis dt < axis.joint.maxPosition.degrees) := by
      rintro ⟨hlow, hhigh⟩
      rw [hend] at hlow hhigh
      rw [clamp_of_mem hlow.le hhigh.le] at hclamp
      rcases hlimit with rfl | rfl <;> linarith
    obtain ⟨hvelocity, hmotor⟩ := hstep.stopped hstopped
    exact ⟨by rw [hstep.position, hend, hclamp], hvelocity, hmotor hA⟩

/-- Whether a step obeys the limits, for one axis. -/
theorem simulate_rests_iff (axis : Axis ℝ)
    (hA : 0 ≤ axis.joint.maxAcceleration.degreesPerSecondSquared)
    (hp : axis.joint.minPosition.degrees ≤ axis.joint.position.degrees ∧
      axis.joint.position.degrees ≤ axis.joint.maxPosition.degrees)
    (hv : |axis.joint.velocity.degreesPerSecond| ≤ axis.joint.maxVelocity.degreesPerSecond)
    (hdt : 0 < dt.seconds) :
    ((∃ t, 0 < t ∧ t ≤ dt.seconds ∧ (axis.joint.maxPosition.degrees ≤ motion axis t ∨
        motion axis t ≤ axis.joint.minPosition.degrees)) →
      ∃ limit, FirstLimit axis.joint.minPosition.degrees axis.joint.maxPosition.degrees
        (motion axis) dt.seconds limit ∧ RestsAt (axis.simulate dt) limit) ↔
      axis.joint.minPosition.degrees = axis.joint.maxPosition.degrees ∨
        ¬ TurnsBack axis.joint.maxPosition.degrees axis.joint.position.degrees
            axis.joint.velocity.degreesPerSecond
            axis.motor.acceleration.degreesPerSecondSquared dt.seconds ∧
          ¬ TurnsBack (-axis.joint.minPosition.degrees) (-axis.joint.position.degrees)
            (-axis.joint.velocity.degreesPerSecond)
            (-axis.motor.acceleration.degreesPerSecondSquared) dt.seconds := by
  rw [← stopsAtFirst_iff_not_turnsBack ((abs_nonneg _).trans hv) (abs_le.mp hv) hdt hp]
  refine imp_congr Iff.rfl (exists_congr fun limit => ?_)
  constructor
  · rintro ⟨hfirst, hrests⟩
    exact ⟨hfirst, (restsAt_simulate_iff hA hp hv hdt hfirst.eq_or_eq).mp hrests⟩
  · rintro ⟨hfirst, hclamp⟩
    exact ⟨hfirst, (restsAt_simulate_iff hA hp hv hdt hfirst.eq_or_eq).mpr hclamp⟩

end Axis

/-! ## A span of joints -/

theorem axisOf_update_of_pos {μ : Type} [DecidableEq μ] {n : Nat} {joints : Fin n → Joint ℝ μ}
    {motors : Motors ℝ μ} {dt : Duration ℝ}
    (hmotors : Function.Injective fun k => (joints k).motor) (hdt : 0 < dt.seconds)
    (i : Fin n) :
    axisOf i (RobotSimulator.update dt joints motors) =
      (axisOf i (joints, motors)).simulate dt := by
  rw [axisOf_update dt hmotors, if_neg (not_le.mpr hdt)]

/-- When `RobotSimulator::update` obeys the position limits.  Let `x` be the exact
motion of a joint within the step.  If `x` reaches or crosses a limit there is a first
one it reaches; and the joint is then left at rest at that limit with its motor command
cleared if and only if the limits coincide or the joint does not turn back from a limit
within the step: moving towards it, reach it, turn, and be short of it again at the end
of the step as uniformly accelerated motion has it. -/
theorem RobotSimulator.rests_at_first_limit_iff {μ : Type} [DecidableEq μ] {n : Nat}
    (joints : Fin n → Joint ℝ μ) (motors : Motors ℝ μ) (dt : Duration ℝ) (i : Fin n)
    (hmotors : Function.Injective fun k => (joints k).motor)
    (hA : 0 ≤ (joints i).maxAcceleration.degreesPerSecondSquared)
    (hp : (joints i).minPosition.degrees ≤ (joints i).position.degrees ∧
      (joints i).position.degrees ≤ (joints i).maxPosition.degrees)
    (hv : |(joints i).velocity.degreesPerSecond| ≤ (joints i).maxVelocity.degreesPerSecond)
    (hdt : 0 < dt.seconds) :
    let V := (joints i).maxVelocity.degreesPerSecond
    let lo := (joints i).minPosition.degrees
    let hi := (joints i).maxPosition.degrees
    let p := (joints i).position.degrees
    let v := (joints i).velocity.degreesPerSecond
    let a := ((joints i).motorAcceleration motors).degreesPerSecondSquared
    let x := fun t : ℝ => p + ∫ s in (0 : ℝ)..t, clamp (-V) V (v + a * s)
    let reached := ∃ t, 0 < t ∧ t ≤ dt.seconds ∧ (hi ≤ x t ∨ x t ≤ lo)
    let after := RobotSimulator.update dt joints motors
    (reached → ∃ limit, FirstLimit lo hi x dt.seconds limit) ∧
    ((reached → ∃ limit, FirstLimit lo hi x dt.seconds limit ∧
        (after.1 i).position.degrees = limit ∧
        (after.1 i).velocity.degreesPerSecond = 0 ∧
        (after.1 i).motorAcceleration after.2 = ⟨0⟩) ↔
      lo = hi ∨ ¬ TurnsBack hi p v a dt.seconds ∧
        ¬ TurnsBack (-lo) (-p) (-v) (-a) dt.seconds) := by
  intro V lo hi p v a x reached after
  have haxis : axisOf i after = (axisOf i (joints, motors)).simulate dt :=
    axisOf_update_of_pos hmotors hdt i
  refine ⟨exists_firstLimit_travel ((abs_nonneg _).trans hv) (abs_le.mp hv) hp, ?_⟩
  have hrests := simulate_rests_iff (axisOf i (joints, motors)) hA hp hv hdt
  rw [← haxis] at hrests
  refine Iff.trans (imp_congr Iff.rfl (exists_congr fun limit => and_congr Iff.rfl ?_)) hrests
  constructor
  · rintro ⟨hposition, hvelocity, hmotor⟩
    exact ⟨hposition, hvelocity, hmotor⟩
  · rintro ⟨hposition, hvelocity, hmotor⟩
    exact ⟨hposition, hvelocity, hmotor⟩

/-- A joint that moves past its upper limit, from 160 degrees to 190 within the step, is
stopped there. -/
theorem RobotSimulator.rests_at_first_limit_passing :
    let joints : Fin 1 → Joint ℝ (Fin 1) :=
      fun _ => { Joint.new ⟨-180⟩ ⟨180⟩ ⟨60⟩ ⟨30⟩ 0 with position := ⟨160⟩, velocity := ⟨30⟩ }
    let motors : Motors ℝ (Fin 1) := fun _ => ⟨⟨0⟩⟩
    let x := fun t : ℝ => 160 + ∫ s in (0 : ℝ)..t, clamp (-60) 60 (30 + 0 * s)
    let after := RobotSimulator.update ⟨1⟩ joints motors
    x 1 = 190 ∧ ∃ limit, FirstLimit (-180) 180 x 1 limit ∧
      (after.1 0).position.degrees = limit ∧ (after.1 0).velocity.degreesPerSecond = 0 := by
  intro joints motors x after
  have hpassed : x 1 = 190 := by
    have hinside : clamp (-60) 60 (30 : ℝ) = 30 := clamp_of_mem (by norm_num) (by norm_num)
    norm_num [x, hinside]
  have hiff := (RobotSimulator.rests_at_first_limit_iff joints motors ⟨1⟩ 0
    (Function.injective_of_subsingleton _) (by norm_num [joints, Joint.new])
    (by norm_num [joints, Joint.new]) (by norm_num [joints, Joint.new]) (by norm_num)).2
  have hstays : ¬ TurnsBack (180 : ℝ) 160 30 0 1 := fun h => by
    linarith [h.turns]
  have hstays' : ¬ TurnsBack (-(-180) : ℝ) (-160) (-30) (-0) 1 := fun h => by
    linarith [h.forward]
  obtain ⟨limit, hfirst, hposition, hvelocity, -⟩ := hiff.mpr (.inr ⟨hstays, hstays'⟩)
    ⟨1, one_pos, le_rfl, .inl (by change 180 ≤ x 1; rw [hpassed]; norm_num)⟩
  exact ⟨hpassed, limit, hfirst, hposition, hvelocity⟩

/-- A joint just below its upper limit that turns back from it within the step: it is not
stopped. -/
theorem RobotSimulator.turns_back_from_limit :
    let joints : Fin 1 → Joint ℝ (Fin 1) :=
      fun _ => { Joint.new ⟨-180⟩ ⟨180⟩ ⟨60⟩ ⟨30⟩ 0 with
        position := ⟨1799 / 10⟩
        velocity := ⟨3⟩ }
    let motors : Motors ℝ (Fin 1) := fun _ => ⟨⟨-30⟩⟩
    let x := fun t : ℝ => 1799 / 10 + ∫ s in (0 : ℝ)..t, clamp (-60) 60 (3 + -30 * s)
    let after := RobotSimulator.update ⟨1 / 5⟩ joints motors
    ¬ ((∃ t, 0 < t ∧ t ≤ 1 / 5 ∧ (180 ≤ x t ∨ x t ≤ -180)) →
      ∃ limit, FirstLimit (-180) 180 x (1 / 5) limit ∧
        (after.1 0).position.degrees = limit ∧
        (after.1 0).velocity.degreesPerSecond = 0 ∧
        (after.1 0).motorAcceleration after.2 = ⟨0⟩) := by
  intro joints motors x after hstops
  have hdt : (0 : ℝ) < (⟨1 / 5⟩ : Duration ℝ).seconds := by norm_num
  have haxis : axisOf 0 after = (axisOf 0 (joints, motors)).simulate ⟨1 / 5⟩ :=
    axisOf_update_of_pos (Function.injective_of_subsingleton _) hdt 0
  have hiff := simulate_rests_iff (axisOf 0 (joints, motors))
    (by norm_num [joints, axisOf, Joint.own, Joint.new])
    (by norm_num [joints, axisOf, Joint.own, Joint.new])
    (by norm_num [joints, axisOf, Joint.own, Joint.new]) hdt
  rw [← haxis] at hiff
  have hrests := hiff.mp fun hreached => by
    obtain ⟨limit, hfirst, hposition, hvelocity, hmotor⟩ := hstops hreached
    exact ⟨limit, hfirst, hposition, hvelocity, hmotor⟩
  have hback : TurnsBack (180 : ℝ) (1799 / 10) 3 (-30) (1 / 5) := by
    constructor <;> norm_num
  rcases hrests with hsame | ⟨hnot, -⟩
  · have hlimits : (-180 : ℝ) = 180 := hsame
    norm_num at hlimits
  · exact hnot hback

end RobotController.Simulation
