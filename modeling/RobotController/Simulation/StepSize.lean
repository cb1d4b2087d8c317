/-
  Simulation/StepSize.lean --- the simulator does not depend on the step size.

  A joint within its limits moves as a body on a track.  As long as its motor command
  does not oppose its velocity, many steps of the simulator are one step over their sum,
  velocity limit and position stops included.
-/
import RobotController.Core.Configuration
import RobotController.Foundation.StoppedMotion
import RobotController.Simulation.PositionLimits

set_option autoImplicit false

namespace RobotController.Simulation

open RobotController.Foundation RobotController.Core

/-! ## A joint on its track -/

/-- The moving body of an axis. -/
def bodyOf (axis : Axis ℝ) : Body where
  position := axis.joint.position.degrees
  velocity := axis.joint.velocity.degreesPerSecond
  acceleration := axis.motor.acceleration.degreesPerSecondSquared

/-- The limits of the joint are those of the track, and its acceleration limit admits
zero. -/
structure Follows (track : Track) (axis : Axis ℝ) : Prop where
  lo : axis.joint.minPosition.degrees = track.lo
  hi : axis.joint.maxPosition.degrees = track.hi
  speed : axis.joint.maxVelocity.degreesPerSecond = track.speed
  limit_nonneg : 0 ≤ axis.joint.maxAcceleration.degreesPerSecondSquared

section Axis

variable {track : Track} {axis : Axis ℝ} {dt : Duration ℝ}

theorem limits_simulate (axis : Axis ℝ) (dt : Duration ℝ) :
    (axis.simulate dt).joint.limits = axis.joint.limits :=
  limits_updateJoint dt _ _

theorem Follows.of_limits {other : Axis ℝ} (h : Follows track axis)
    (hlimits : other.joint.limits = axis.joint.limits) : Follows track other := by
  simp only [Joint.limits, Limits.mk.injEq] at hlimits
  obtain ⟨hmin, hmax, hvelocity, hacceleration⟩ := hlimits
  exact ⟨hmin ▸ h.lo, hmax ▸ h.hi, hvelocity ▸ h.speed, hacceleration ▸ h.limit_nonneg⟩

/-- One step of the simulator moves the body along the track. -/
theorem bodyOf_simulate (h : Follows track axis) (hon : track.On (bodyOf axis))
    (hdt : 0 < dt.seconds) :
    bodyOf (axis.simulate dt) = track.advance dt.seconds (bodyOf axis) := by
  have hV : 0 ≤ axis.joint.maxVelocity.degreesPerSecond := h.speed ▸ track.speed_nonneg
  have hends : axis.joint.minPosition.degrees ≤ axis.joint.maxPosition.degrees := by
    rw [h.lo, h.hi]
    exact track.lo_le_hi
  have hspeed : |axis.joint.velocity.degreesPerSecond| ≤
      axis.joint.maxVelocity.degreesPerSecond := h.speed ▸ hon.speed_le
  obtain ⟨hvelocity_low, hvelocity_high⟩ := abs_le.mp hspeed
  have hfree : freePosition axis dt = track.free dt.seconds (bodyOf axis) := by
    rw [freePosition_eq_motion hspeed, motion, h.speed]
    rfl
  have hcases := (saturatedStep_simulate hV hends hdt).cases hends h.limit_nonneg
  rw [h.lo, h.hi, hfree, saturate_of_mem hvelocity_low hvelocity_high, h.speed] at hcases
  obtain ⟨hlow, hposition, hvelocity, hcleared⟩ | ⟨hlow, hhigh, hposition, hvelocity, hcleared⟩ |
    ⟨hlow, hhigh, hposition, hvelocity, hkept⟩ := hcases
  · rw [Track.advance_of_le_lo hlow, bodyOf, hposition, hvelocity, hcleared, h.lo]
  · rw [Track.advance_of_hi_le hhigh, bodyOf, hposition, hvelocity, hcleared, h.hi]
  · rw [Track.advance_of_between hlow hhigh, bodyOf, hposition, hvelocity, hkept]
    rfl

/-- Many steps of the simulator move the body piece by piece. -/
theorem bodyOf_foldl_simulate : ∀ (steps : List (Duration ℝ)) {axis : Axis ℝ},
    Follows track axis → track.On (bodyOf axis) → (∀ dt ∈ steps, 0 < dt.seconds) →
      bodyOf (steps.foldl (fun current dt => current.simulate dt) axis) =
        (steps.map Duration.seconds).foldl (fun body T => track.advance T body)
          (bodyOf axis) := by
  intro steps
  induction steps with
  | nil => exact fun _ _ _ => rfl
  | cons dt rest ih =>
      intro axis h hon hpos
      rw [List.forall_mem_cons] at hpos
      have hstep := bodyOf_simulate h hon hpos.1
      rw [List.foldl_cons, List.map_cons, List.foldl_cons, ← hstep]
      refine ih (h.of_limits (limits_simulate axis dt)) ?_ hpos.2
      rw [hstep]
      exact track.on_advance _ _

end Axis

/-! ## A span of joints -/

/-- `RobotSimulator::update` with each of the time steps in turn. -/
def updates {R μ : Type} [Double R] [DecidableEq μ] {n : Nat} (steps : List (Duration R))
    (s : (Fin n → Joint R μ) × Motors R μ) : (Fin n → Joint R μ) × Motors R μ :=
  steps.foldl (fun current dt => RobotSimulator.update dt current.1 current.2) s

section Span

variable {μ : Type} [DecidableEq μ] {n : Nat}

theorem axisOf_updates : ∀ (steps : List (Duration ℝ)) {joints : Fin n → Joint ℝ μ}
    {motors : Motors ℝ μ}, (Function.Injective fun k => (joints k).motor) →
    (∀ dt ∈ steps, 0 < dt.seconds) → ∀ i,
      axisOf i (updates steps (joints, motors)) =
        steps.foldl (fun current dt => current.simulate dt) (axisOf i (joints, motors)) := by
  intro steps
  induction steps with
  | nil => exact fun _ _ _ => rfl
  | cons dt rest ih =>
      intro joints motors hmotors hpos i
      rw [List.forall_mem_cons] at hpos
      have hdistinct : Function.Injective fun k =>
          ((RobotSimulator.update dt joints motors).1 k).motor := by
        simpa only [motor_update] using hmotors
      have hstep : axisOf i (RobotSimulator.update dt joints motors) =
          (axisOf i (joints, motors)).simulate dt :=
        axisOf_update_of_pos hmotors hpos.1 i
      rw [List.foldl_cons, ← hstep]
      exact ih hdistinct hpos.2 i

/-- Step-size independence up to and including the limits.  For every joint of a span that
is within its limits and whose motor command does not oppose its velocity, any positive
number of updates with positive time steps yields the position, the velocity and the motor
command of one update with the sum of the time steps. -/
theorem RobotSimulator.updates_eq_update_sum (joints : Fin n → Joint ℝ μ) (motors : Motors ℝ μ)
    (i : Fin n) (hmotors : Function.Injective fun k => (joints k).motor)
    (hV : 0 ≤ (joints i).maxVelocity.degreesPerSecond)
    (hA : 0 ≤ (joints i).maxAcceleration.degreesPerSecondSquared)
    (hp : (joints i).minPosition.degrees ≤ (joints i).position.degrees ∧
      (joints i).position.degrees ≤ (joints i).maxPosition.degrees)
    (hv : |(joints i).velocity.degreesPerSecond| ≤ (joints i).maxVelocity.degreesPerSecond)
    (hforward : 0 ≤ ((joints i).motorAcceleration motors).degreesPerSecondSquared *
      (joints i).velocity.degreesPerSecond)
    (steps : List (Duration ℝ)) (hne : steps ≠ []) (hpos : ∀ dt ∈ steps, 0 < dt.seconds) :
    let many := updates steps (joints, motors)
    let once := RobotSimulator.update ⟨(steps.map Duration.seconds).sum⟩ joints motors
    (many.1 i).position = (once.1 i).position ∧
      (many.1 i).velocity = (once.1 i).velocity ∧
      (many.1 i).motorAcceleration many.2 = (once.1 i).motorAcceleration once.2 := by
  intro many once
  let track : Track := ⟨(joints i).minPosition.degrees, (joints i).maxPosition.degrees,
    (joints i).maxVelocity.degreesPerSecond, hp.1.trans hp.2, hV⟩
  have hfollows : Follows track (axisOf i (joints, motors)) := ⟨rfl, rfl, rfl, hA⟩
  have hon : track.On (bodyOf (axisOf i (joints, motors))) := ⟨hp.1, hp.2, hv⟩
  have hseconds : ∀ T ∈ steps.map Duration.seconds, 0 < T := by
    simpa only [List.forall_mem_map] using hpos
  have hne_seconds : steps.map Duration.seconds ≠ [] := by
    rwa [Ne, List.map_eq_nil_iff]
  have hsum : 0 < (⟨(steps.map Duration.seconds).sum⟩ : Duration ℝ).seconds :=
    List.sum_pos _ hseconds hne_seconds
  have hbody : bodyOf (axisOf i many) = bodyOf (axisOf i once) := by
    calc bodyOf (axisOf i many)
        = (steps.map Duration.seconds).foldl (fun body T => track.advance T body)
            (bodyOf (axisOf i (joints, motors))) := by
          rw [axisOf_updates steps hmotors hpos, bodyOf_foldl_simulate steps hfollows hon hpos]
      _ = track.advance (steps.map Duration.seconds).sum (bodyOf (axisOf i (joints, motors))) :=
          Track.foldl_advance _ hne_seconds hseconds hon hforward
      _ = bodyOf (axisOf i once) := by
          rw [axisOf_update_of_pos hmotors hsum, bodyOf_simulate hfollows hon hsum]
  rw [Body.ext_iff] at hbody
  obtain ⟨hposition, hvelocity, hacceleration⟩ := hbody
  exact ⟨Angle.ext hposition, AngularVelocity.ext hvelocity,
    AngularAcceleration.ext hacceleration⟩

end Span

/-- A joint that gathers speed for two seconds and then cruises into its upper limit. -/
theorem RobotSimulator.updates_eq_update_sum_into_limit :
    let joints : Fin 1 → Joint ℝ (Fin 1) := fun _ => Joint.new ⟨-10⟩ ⟨10⟩ ⟨2⟩ ⟨3⟩ 0
    let motors : Motors ℝ (Fin 1) := fun _ => ⟨⟨1⟩⟩
    ((updates [⟨1⟩, ⟨2⟩, ⟨100⟩] (joints, motors)).1 0).position =
      ((RobotSimulator.update ⟨[1, 2, 100].sum⟩ joints motors).1 0).position :=
  (RobotSimulator.updates_eq_update_sum
    (fun _ : Fin 1 => Joint.new (R := ℝ) ⟨-10⟩ ⟨10⟩ ⟨2⟩ ⟨3⟩ (0 : Fin 1)) (fun _ => ⟨⟨1⟩⟩) 0
    (Function.injective_of_subsingleton _) (by norm_num [Joint.new]) (by norm_num [Joint.new])
    (by norm_num [Joint.new]) (by norm_num [Joint.new]) (by norm_num [Joint.new])
    [⟨1⟩, ⟨2⟩, ⟨100⟩] (by simp) (by simp)).1

end RobotController.Simulation
