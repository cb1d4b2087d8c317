/-
  Foundation/TargetTracking.lean --- a limited drive towards a target.

  A body on a track with speed limit 60 is driven towards a target by the
  proportional-derivative law with gains `1` and `1/2`, limited to `[-30, 30]` and held
  for a time that is chosen anew at each step.  Neither the limit of the drive, nor the
  speed limit, nor an end of the track is assumed away: an energy decays through all of
  them, and a target beyond an end takes the body to that end in bounded time.
-/
import RobotController.Foundation.Dissipation

set_option autoImplicit false

namespace RobotController.Foundation.TargetTracking

/-! ## The energy -/

/-- The energy at error `e` and velocity `v`: the potential of the drive, the kinetic
energy, and a cross term that makes the energy decay where the drive is zero. -/
noncomputable def energy (e v : ℝ) : ℝ :=
  potential 30 (e + 0.5 * v) + 0.5 * v ^ 2 - 0.02 * (e + 0.5 * v) * v

theorem energy_eq (e v : ℝ) :
    energy e v = potential 30 (e + v / 2) + v ^ 2 / 2 - (e + v / 2) * v / 50 := by
  have hargument : e + 0.5 * v = e + v / 2 := by ring
  rw [energy, hargument]
  ring

theorem energy_neg (e v : ℝ) : energy (-e) (-v) = energy e v := by
  have hargument : -e + -v / 2 = -(e + v / 2) := by ring
  rw [energy_eq, hargument, potential_neg (by norm_num), energy_eq]
  ring

section Bounds

variable {e v : ℝ}

theorem sq_le_energy (h : |e + v / 2| ≤ 450) : e ^ 2 + v ^ 2 ≤ 151 / 5 * energy e v := by
  have hdrive : (e + v / 2) ^ 2 ≤ 15 * (saturate 30 (e + v / 2) * (e + v / 2)) :=
    sq_le_mul_saturate (by norm_num) (by linarith)
  have hpotential : saturate 30 (e + v / 2) * (e + v / 2) / 2 ≤ potential 30 (e + v / 2) :=
    half_le_potential (by norm_num) _
  have hlower : (e + v / 2) ^ 2 / 30 + v ^ 2 / 2 - (e + v / 2) * v / 50 ≤ energy e v := by
    rw [energy_eq]
    linarith
  nlinarith [sq_nonneg ((e + v / 2) / 10 - 3 * v), sq_nonneg v]

theorem energy_nonneg (h : |e + v / 2| ≤ 450) : 0 ≤ energy e v := by
  have hle := sq_le_energy h
  have hnonneg : 0 ≤ e ^ 2 + v ^ 2 := by positivity
  linarith

theorem energy_le_sq (e v : ℝ) : energy e v ≤ 161 / 200 * (e ^ 2 + v ^ 2) := by
  have hpotential := potential_le_half_sq 30 (e + v / 2)
  rw [energy_eq]
  nlinarith [sq_nonneg (e - v * (24 / 30)), sq_nonneg (61 * e - 48 * v), sq_nonneg e,
    sq_nonneg v]

end Bounds

/-! ## One step -/

section Free

/-!
A step away from the ends of the track changes the velocity from `w + s * τ` to `w`, where
`-s` is the drive and `τ` the time for which it acts, and the argument `y` of the potential
by `w * h - s * τ * (1 - τ) / 2`.
-/

variable {y s w τ h : ℝ}

/-- What the drive takes: its share while it acts, and more while the body cruises against
it. -/
theorem taken_le (hτ : 0 ≤ τ) (hle : τ ≤ h) (hdrive : s * y ≤ 15 * s ^ 2)
    (hcruise : (h - τ) * (s * w + 2 * s ^ 2) ≤ 0) :
    s * (w * h - s * τ * (1 - τ) / 2) + (w ^ 2 - (w + s * τ) ^ 2) / 2 + y * (s * τ) / 50 ≤
      -(1 / 5) * s ^ 2 * h := by
  have hwork : s * (w * h - s * τ * (1 - τ) / 2) + (w ^ 2 - (w + s * τ) ^ 2) / 2 =
      (h - τ) * (s * w) - s ^ 2 * τ / 2 := by
    ring
  have hgain : y * (s * τ) ≤ 15 * s ^ 2 * τ := by
    linarith [mul_le_mul_of_nonneg_right hdrive hτ]
  linarith [mul_nonneg (sub_nonneg.mpr hle) (sq_nonneg s), mul_nonneg hτ (sq_nonneg s)]

theorem acting_nonneg (hτ : 0 ≤ τ) (hle : τ ≤ h) (hh : h ≤ 1 / 100) :
    0 ≤ τ * (1 - τ) ∧ τ * (1 - τ) ≤ h := by
  constructor
  · exact mul_nonneg hτ (by linarith)
  · linarith [sq_nonneg τ]

/-- What the length of the step gives back. -/
theorem second_order_le (hτ : 0 ≤ τ) (hle : τ ≤ h) (hh : h ≤ 1 / 100) :
    (w * h - s * τ * (1 - τ) / 2) ^ 2 / 2 ≤ h * (w ^ 2 / 100 + s ^ 2 / 400) := by
  obtain ⟨hacting, hacting_le⟩ := acting_nonneg hτ hle hh
  have hshort : (τ * (1 - τ)) ^ 2 ≤ h ^ 2 := pow_le_pow_left₀ hacting hacting_le 2
  have hfirst : (w * h - s * τ * (1 - τ) / 2) ^ 2 ≤ 2 * (w ^ 2 * h ^ 2) + s ^ 2 * h ^ 2 / 2 := by
    linarith [sq_nonneg (w * h + s * (τ * (1 - τ)) / 2),
      mul_le_mul_of_nonneg_left hshort (sq_nonneg s)]
  have hhh : h ^ 2 ≤ h / 100 := by nlinarith
  linarith [mul_le_mul_of_nonneg_left hhh (sq_nonneg w),
    mul_le_mul_of_nonneg_left hhh (sq_nonneg s)]

/-- What the cross term takes. -/
theorem cross_le (hτ : 0 ≤ τ) (hle : τ ≤ h) (hh : h ≤ 1 / 100) :
    -((w * h - s * τ * (1 - τ) / 2) * w) / 50 ≤ h * (-(17 / 1000) * w ^ 2 + s ^ 2 / 100) := by
  obtain ⟨hacting, hacting_le⟩ := acting_nonneg hτ hle hh
  have hbound : w * s ≤ 3 / 10 * w ^ 2 + s ^ 2 := by
    linarith [sq_nonneg (w / 2 - s), sq_nonneg w]
  have hmixed : w * s * (τ * (1 - τ)) ≤ h * (3 / 10 * w ^ 2 + s ^ 2) :=
    calc w * s * (τ * (1 - τ))
        ≤ (3 / 10 * w ^ 2 + s ^ 2) * (τ * (1 - τ)) := mul_le_mul_of_nonneg_right hbound hacting
      _ ≤ (3 / 10 * w ^ 2 + s ^ 2) * h := mul_le_mul_of_nonneg_left hacting_le (by positivity)
      _ = h * (3 / 10 * w ^ 2 + s ^ 2) := mul_comm _ _
  linarith

/-- What there is to take. -/
theorem share_le (hτ : 0 ≤ τ) (hτ_le : τ ≤ 1 / 100) (hsq : y ^ 2 ≤ 225 * s ^ 2)
    (htop : potential 30 y ≤ 29 / 2 * s ^ 2) :
    potential 30 y + (w + s * τ) ^ 2 / 2 - y * (w + s * τ) / 50 ≤
      27 * s ^ 2 + 21 / 20 * w ^ 2 := by
  have hmixed : -(y * (w + s * τ)) / 50 ≤ 9 / 100 * s ^ 2 + (w + s * τ) ^ 2 / 4 := by
    linarith [sq_nonneg (y / 50 + (w + s * τ) / 2)]
  have hshort : τ ^ 2 ≤ 1 / 10000 := by nlinarith
  have hvelocity : (w + s * τ) ^ 2 ≤ 6 / 5 * w ^ 2 + s ^ 2 / 100 := by
    linarith [sq_nonneg (w - 5 * (s * τ)), mul_le_mul_of_nonneg_left hshort (sq_nonneg s),
      sq_nonneg s]
  linarith [sq_nonneg s, sq_nonneg w]

end Free

section Step

variable {e v s τ h : ℝ}

/-- A step away from the ends of the track. -/
theorem energy_free_le (hτ : 0 ≤ τ) (hle : τ ≤ h) (hh : h ≤ 1 / 100) (hy : |e + v / 2| ≤ 450)
    (hs : s = saturate 30 (e + v / 2))
    (hcruise : (h - τ) * (s * (v - s * τ) + 2 * s ^ 2) ≤ 0) :
    energy (e + (v * h - s * τ * (h - τ / 2))) (v - s * τ) ≤ (1 - h / 150) * energy e v := by
  obtain ⟨w, hw⟩ : ∃ w, w = v - s * τ := ⟨_, rfl⟩
  obtain ⟨y, hyeq⟩ : ∃ y, y = e + v / 2 := ⟨_, rfl⟩
  obtain rfl : v = w + s * τ := by rw [hw]; ring
  have hargument : e + ((w + s * τ) * h - s * τ * (h - τ / 2)) + w / 2 =
      y + (w * h - s * τ * (1 - τ) / 2) := by
    rw [hyeq]
    ring
  rw [← hw, energy_eq, energy_eq, hargument, ← hyeq]
  rw [← hyeq] at hs hy
  rw [← hw] at hcruise
  have hlimit : |y| ≤ 15 * 30 := by linarith
  have hdrive : s * y ≤ 15 * s ^ 2 := hs ▸ mul_le_mul_sq_saturate (by norm_num) hlimit
  have hsq : y ^ 2 ≤ 15 * (s * y) := hs ▸ sq_le_mul_saturate (by norm_num) hlimit
  have htop : potential 30 y ≤ (15 - 1 / 2) * s ^ 2 := hs ▸ potential_le (by norm_num) hlimit
  have hslope := potential_le_add (A := 30) (by norm_num) y
    (y + (w * h - s * τ * (1 - τ) / 2))
  rw [add_sub_cancel_left, ← hs] at hslope
  have htaken := taken_le hτ hle hdrive hcruise
  have hsecond := second_order_le (s := s) (w := w) hτ hle hh
  have hcross := cross_le (s := s) (w := w) hτ hle hh
  have hshare := share_le (w := w) hτ (hle.trans hh) (by linarith) (by linarith) (y := y) (s := s)
  have hh0 : 0 ≤ h := hτ.trans hle
  linarith [mul_le_mul_of_nonneg_left hshare hh0, mul_nonneg hh0 (sq_nonneg s)]

/-- A step that covers no distance backwards and does not end short of the target starts
with a drive away from the target: a body driven forward is not that close. -/
theorem drive_nonneg_of_reach (hle : τ ≤ h) (hpos : 0 < h) (hh : h ≤ 1 / 100)
    (hs : s = saturate 30 (e + v / 2)) (hforward : 0 ≤ v * h - s * τ * (h - τ / 2))
    (hreach : 0 ≤ e + (v * h - s * τ * (h - τ / 2))) : 0 ≤ s := by
  by_contra hneg
  have hneg' : s < 0 := not_le.mp hneg
  have hcut := saturate_projects (A := 30) (s := 30) (x := e + v / 2) (by norm_num) le_rfl
  rw [← hs] at hcut
  have hargument : e + v / 2 ≤ s := by
    have hgap : 0 < 30 - s := by linarith
    linarith [nonpos_of_mul_nonpos_right hcut hgap]
  have hpush : s * τ ^ 2 ≤ 0 := mul_nonpos_of_nonpos_of_nonneg hneg'.le (sq_nonneg τ)
  have hw : 0 ≤ v - s * τ := by
    have hdistance : 0 ≤ (v - s * τ) * h := by linarith
    exact nonneg_of_mul_nonneg_left hdistance hpos
  have hclose : -s ≤ (v - s * τ) * (h - 1 / 2) - s * τ / 2 := by linarith
  have hslower : (v - s * τ) * (h - 1 / 2) ≤ 0 :=
    mul_nonpos_of_nonneg_of_nonpos hw (by linarith)
  have hshort : -s * τ ≤ -s * (1 / 100) :=
    mul_le_mul_of_nonneg_left (hle.trans hh) (by linarith)
  linarith

/-- Against the drive a step needs its velocity to cover a distance. -/
theorem speed_of_reach (hτ : 0 ≤ τ) (hle : τ ≤ h) (hpos : 0 < h) (hh : h ≤ 1 / 100)
    (hs0 : 0 ≤ s) (hcruise : (h - τ) * (s * (v - s * τ) + 2 * s ^ 2) ≤ 0)
    (hforward : 0 ≤ v * h - s * τ * (h - τ / 2)) : s * h / 2 ≤ v := by
  have hrest : 0 ≤ h - τ := sub_nonneg.mpr hle
  have hv : s * τ / 2 ≤ v := by
    have hdistance : s * τ / 2 * h ≤ v * h := by
      linarith [mul_nonneg (mul_nonneg hs0 hτ) hrest]
    exact le_of_mul_le_mul_right hdistance hpos
  -- Either the drive is zero, or it acts all the time.
  have hacts : (h - τ) * s ^ 2 ≤ 0 := by
    have hagainst : s ^ 2 ≤ s * (v - s * τ) + 2 * s ^ 2 := by
      have hslow : s ^ 2 * τ ≤ s ^ 2 * (1 / 100) :=
        mul_le_mul_of_nonneg_left (hle.trans hh) (sq_nonneg s)
      linarith [mul_le_mul_of_nonneg_left hv hs0, sq_nonneg s]
    exact (mul_le_mul_of_nonneg_left hagainst hrest).trans hcruise
  rcases hle.eq_or_lt with rfl | hlt
  · exact hv
  · have hsq : s ^ 2 ≤ 0 := nonpos_of_mul_nonpos_right hacts (sub_pos.mpr hlt)
    have hzero : s = 0 := pow_eq_zero_iff two_ne_zero |>.mp (le_antisymm hsq (sq_nonneg s))
    rw [hzero] at hv ⊢
    linarith

/-- The potential where a body is stopped, against the energy it came with. -/
theorem stopped_share_le {σ f : ℝ} (hpos : 0 < h) (hh : h ≤ 1 / 100) (hσ : 0 ≤ σ)
    (hslow : σ * h / 2 ≤ v) (htop : potential 30 f ≤ 27 / 2 * σ ^ 2) :
    potential 30 f ≤ (1 - h / 150) * (potential 30 f + 21 / 100 * (σ * v)) := by
  have hv : 0 ≤ v := (by positivity : 0 ≤ σ * h / 2).trans hslow
  have hkinetic : σ * (σ * h / 2) ≤ σ * v := mul_le_mul_of_nonneg_left hslow hσ
  have hrate : h * (σ * v) ≤ 1 / 100 * (σ * v) :=
    mul_le_mul_of_nonneg_right hh (mul_nonneg hσ hv)
  linarith [mul_le_mul_of_nonneg_left htop hpos.le, mul_nonneg hσ hv]

/-- At the upper end of the track: a body that is stopped there short of its target, or at
it, loses its kinetic energy, and that is enough. -/
theorem energy_stopped_le {f : ℝ} (hτ : 0 ≤ τ) (hle : τ ≤ h) (hpos : 0 < h) (hh : h ≤ 1 / 100)
    (hs : s = saturate 30 (e + v / 2))
    (hcruise : (h - τ) * (s * (v - s * τ) + 2 * s ^ 2) ≤ 0)
    (hf : 0 ≤ f) (hf_le : f ≤ 420) (hef : e ≤ f)
    (hreach : f ≤ e + (v * h - s * τ * (h - τ / 2))) :
    energy f 0 ≤ (1 - h / 150) * energy e v := by
  have hforward : 0 ≤ v * h - s * τ * (h - τ / 2) := by linarith
  have hs0 : 0 ≤ s := drive_nonneg_of_reach hle hpos hh hs hforward (hf.trans hreach)
  have hv := speed_of_reach hτ hle hpos hh hs0 hcruise hforward
  have hv0 : 0 ≤ v := (by positivity : 0 ≤ s * h / 2).trans hv
  have hdistance : f ≤ e + v * h := by
    have hagainst : 0 ≤ s * τ * (h - τ / 2) := mul_nonneg (mul_nonneg hs0 hτ) (by linarith)
    linarith
  have hshort : v * h ≤ v * (1 / 100) := mul_le_mul_of_nonneg_left hh hv0
  obtain ⟨y, hyeq⟩ : ∃ y, y = e + v / 2 := ⟨_, rfl⟩
  have hfy : f + 49 / 100 * v ≤ y := by linarith
  have hyf : y ≤ f + v / 2 := by linarith
  obtain ⟨σ, hσ⟩ : ∃ σ, σ = saturate 30 f := ⟨_, rfl⟩
  have hσ0 : 0 ≤ σ := hσ ▸ saturate_nonneg (by norm_num) hf
  have hσs : σ ≤ s := by
    rw [hσ, hs, ← hyeq]
    exact saturate_mono (by linarith)
  have hslope : potential 30 f + σ * (y - f) ≤ potential 30 y :=
    hσ ▸ potential_add_le (by norm_num) f y
  have habs : |f| ≤ 14 * 30 := by
    rw [abs_of_nonneg hf]
    linarith
  have hfσ : f ≤ 14 * σ := by
    rcases le_total f 30 with hlow | hhigh
    · rw [hσ, saturate_of_mem (by linarith) hlow]
      linarith
    · rw [hσ, saturate_of_le (by norm_num) hhigh]
      linarith
  have htop : potential 30 f ≤ (14 - 1 / 2) * σ ^ 2 := hσ ▸ potential_le (by norm_num) habs
  have hslow : σ * h / 2 ≤ v := by
    linarith [mul_le_mul_of_nonneg_right hσs hpos.le]
  have hbefore : potential 30 f + 21 / 100 * (σ * v) ≤ energy e v := by
    rw [energy_eq, ← hyeq]
    have hlead : σ * (49 / 100 * v) ≤ σ * (y - f) :=
      mul_le_mul_of_nonneg_left (by linarith) hσ0
    have hmixed : y * v ≤ (14 * σ + v / 2) * v :=
      mul_le_mul_of_nonneg_right (by linarith) hv0
    linarith [sq_nonneg v]
  have hstopped : energy f 0 = potential 30 f := by
    rw [energy_eq]
    ring_nf
  rw [hstopped]
  calc potential 30 f
      ≤ (1 - h / 150) * (potential 30 f + 21 / 100 * (σ * v)) :=
        stopped_share_le hpos hh hσ0 hslow (by linarith)
    _ ≤ (1 - h / 150) * energy e v := mul_le_mul_of_nonneg_left hbefore (by linarith)

end Step

/-! ## On the track -/

/-- What the law asks for. -/
noncomputable def drive (target : ℝ) (body : Body) : ℝ :=
  -saturate 30 (body.position - target + 0.5 * body.velocity)

theorem drive_eq (target : ℝ) (body : Body) :
    drive target body = -saturate 30 (body.position - target + body.velocity / 2) := by
  have hargument : body.position - target + 0.5 * body.velocity =
      body.position - target + body.velocity / 2 := by ring
  rw [drive, hargument]

/-- Hold the drive for a time. -/
noncomputable def next (track : Track) (target : ℝ) (body : Body) (h : ℝ) : Body :=
  track.advance h { body with acceleration := drive target body }

/-- The energy of a body. -/
noncomputable def bodyEnergy (target : ℝ) (body : Body) : ℝ :=
  energy (body.position - target) body.velocity

/-- A track the law is made for. -/
structure Suited (track : Track) : Prop where
  speed_eq : track.speed = 60
  length_le : track.hi - track.lo ≤ 360

/-- The body has come to rest at the upper end, short of its target. -/
structure Arrived (track : Track) (target : ℝ) (body : Body) : Prop where
  beyond : track.hi < target
  position_eq : body.position = track.hi
  velocity_eq : body.velocity = 0

section Next

variable {track : Track} {target : ℝ} {body : Body} {h : ℝ}

theorem Suited.mirror (hsuited : Suited track) : Suited track.mirror := by
  refine ⟨hsuited.speed_eq, ?_⟩
  have hlength := hsuited.length_le
  change -track.lo - -track.hi ≤ 360
  linarith

theorem on_next : track.On (next track target body h) := track.on_advance h _

/-- The next body does not depend on the drive the body had. -/
theorem next_congr {other : Body} (hposition : body.position = other.position)
    (hvelocity : body.velocity = other.velocity) :
    next track target body h = next track target other h := by
  rw [next, next, drive, drive, hposition, hvelocity]

/-- The argument of the potential is not far beyond the limit. -/
theorem argument_le (hsuited : Suited track) (hon : track.On body) (hlow : track.lo ≤ target)
    (hhigh : target ≤ track.hi + 60) :
    |body.position - target + body.velocity / 2| ≤ 450 := by
  obtain ⟨hslow, hfast⟩ := hon.velocity_mem
  rw [hsuited.speed_eq] at hslow hfast
  have hlength := hsuited.length_le
  rw [abs_le]
  constructor <;> linarith [hon.lo_le, hon.le_hi]

/-- One step takes energy, or takes the body to the end that its target is beyond. -/
theorem next_decays (hsuited : Suited track) (hon : track.On body) (hlow : track.lo ≤ target)
    (hhigh : target ≤ track.hi + 60) (hpos : 0 < h) (hh : h ≤ 1 / 100) :
    Arrived track target (next track target body h) ∨
      bodyEnergy target (next track target body h) ≤ (1 - h / 150) * bodyEnergy target body := by
  obtain ⟨s, hs⟩ : ∃ s, s = saturate 30 (body.position - target + body.velocity / 2) := ⟨_, rfl⟩
  have hdrive : drive target body = -s := by rw [drive_eq, hs]
  obtain ⟨τ, hτ⟩ := exists_drivenFor hpos.le hon.velocity_mem (-s)
  have hcruise : (h - τ) * (s * (body.velocity - s * τ) + 2 * s ^ 2) ≤ 0 := by
    have hs_le : |s| ≤ 30 := by
      rw [hs]
      exact abs_le.mpr ⟨neg_le_saturate _ _, saturate_le (by norm_num)⟩
    have hlimit : 2 * s ^ 2 ≤ |s| * 60 := by
      nlinarith [abs_nonneg s, sq_abs s]
    have hrest := mul_le_mul_of_nonneg_left hlimit (sub_nonneg.mpr hτ.le)
    have hspeed := hτ.cruises
    rw [hsuited.speed_eq, abs_neg] at hspeed
    linarith
  have hfree : track.free h { body with acceleration := drive target body } =
      body.position + (body.velocity * h - s * τ * (h - τ / 2)) := by
    rw [hdrive, Track.free, hτ.travel_eq]
    ring
  have hends := track.lo_le_hi
  have hlength := hsuited.length_le
  rw [next]
  rcases le_or_gt (track.free h { body with acceleration := drive target body }) track.lo
    with hbelow | habove
  · -- Stopped at the lower end: the mirror image of a stop at the upper one.
    rw [Track.advance_of_le_lo hbelow]
    rw [hfree] at hbelow
    have hstopped := energy_stopped_le (e := -(body.position - target)) (v := -body.velocity)
      (s := -s) (f := target - track.lo) hτ.nonneg hτ.le hpos hh
      (by rw [hs, ← saturate_neg (by norm_num)]; ring_nf) (by linarith) (by linarith)
      (by linarith) (by linarith [hon.lo_le]) (by linarith)
    rw [energy_neg] at hstopped
    have hmirror := energy_neg (track.lo - target) 0
    rw [neg_sub, neg_zero] at hmirror
    rw [hmirror] at hstopped
    exact .inr hstopped
  · rcases le_or_gt track.hi (track.free h { body with acceleration := drive target body })
      with hbeyond | hwithin
    · rw [Track.advance_of_hi_le hbeyond]
      rw [hfree] at hbeyond
      rcases lt_or_ge track.hi target with hout | hin
      · exact .inl ⟨hout, rfl, rfl⟩
      · exact .inr (energy_stopped_le hτ.nonneg hτ.le hpos hh hs hcruise (by linarith)
          (by linarith) (by linarith [hon.le_hi]) (by linarith))
    · rw [Track.advance_of_between habove hwithin]
      have hvelocity : saturate track.speed (body.velocity + drive target body * h) =
          body.velocity - s * τ := by
        rw [hdrive, hτ.velocity_eq]
        ring
      have herror : body.position + (body.velocity * h - s * τ * (h - τ / 2)) - target =
          body.position - target + (body.velocity * h - s * τ * (h - τ / 2)) := by ring
      rw [bodyEnergy, hvelocity, hfree, herror]
      exact .inr (energy_free_le hτ.nonneg hτ.le hh
        (argument_le hsuited hon hlow hhigh) hs hcruise)

/-- A body that has arrived stays. -/
theorem Arrived.next (harrived : Arrived track target body) (hsuited : Suited track)
    (hpos : 0 < h) : Arrived track target (next track target body h) := by
  have hon : track.On { body with acceleration := drive target body } := by
    refine ⟨?_, harrived.position_eq.le, ?_⟩
    · exact track.lo_le_hi.trans harrived.position_eq.ge
    · change |body.velocity| ≤ track.speed
      rw [harrived.velocity_eq, abs_zero]
      exact track.speed_nonneg
  have hdrive : 0 ≤ drive target body := by
    have hback : 0 ≤ saturate 30 (-(body.position - target + body.velocity / 2)) := by
      refine saturate_nonneg (by norm_num) ?_
      rw [harrived.position_eq, harrived.velocity_eq]
      linarith [harrived.beyond]
    rwa [saturate_neg (by norm_num), ← drive_eq] at hback
  obtain ⟨hposition, hvelocity⟩ := Track.rests_of_drive hon (by rw [hsuited.speed_eq]; norm_num)
    hpos harrived.velocity_eq (.inr (.inr ⟨harrived.position_eq, hdrive⟩))
  exact ⟨harrived.beyond, hposition.trans harrived.position_eq,
    hvelocity.trans harrived.velocity_eq⟩

/-- The loop uses up its energy. -/
theorem dissipates (hsuited : Suited track) (hlow : track.lo ≤ target)
    (hhigh : target ≤ track.hi + 60) :
    Dissipates (next track target) id (fun h => 0 < h ∧ h ≤ 1 / 100) track.On
      (Arrived track target) (bodyEnergy target) (1 / 150) where
  energy_nonneg _ hon := energy_nonneg (argument_le hsuited hon hlow hhigh)
  keeps_goal _ _ harrived hallowed := harrived.next hsuited hallowed.1
  keeps_region _ _ _ _ := .inr on_next
  decays body h hon hallowed := by
    have hdecay := next_decays hsuited hon hlow hhigh hallowed.1 hallowed.2
    rwa [id_eq, one_div_mul_eq_div]

end Next

/-! ## Runs -/

section Runs

variable {track : Track} {target : ℝ} {body : Body} {steps : List ℝ}

theorem on_run (hon : track.On body) : track.On (steps.foldl (next track target) body) := by
  induction steps using List.reverseRecOn with
  | nil => exact hon
  | append_singleton rest h _ =>
      rw [List.foldl_append]
      exact on_next

/-- A target on the track is approached exponentially in the time that passed. -/
theorem run_converges (hsuited : Suited track) (hon : track.On body) (hlow : track.lo ≤ target)
    (hhigh : target ≤ track.hi) (hsteps : ∀ h ∈ steps, 0 < h ∧ h ≤ 1 / 100) :
    let final := steps.foldl (next track target) body
    (final.position - target) ^ 2 + final.velocity ^ 2 ≤
      25 * Real.exp (-(steps.sum / 150)) *
        ((body.position - target) ^ 2 + body.velocity ^ 2) := by
  intro final
  have hdissipates := dissipates hsuited hlow (by linarith : target ≤ track.hi + 60)
  obtain ⟨-, hdecay⟩ := (hdissipates.run steps hsteps hon).resolve_left
    fun harrived => absurd harrived.beyond (not_lt.mpr hhigh)
  rw [List.map_id, one_div_mul_eq_div] at hdecay
  have hupper := sq_le_energy
    (argument_le hsuited (on_run hon : track.On final) hlow (by linarith))
  have hlower := energy_le_sq (body.position - target) body.velocity
  have hexp := (Real.exp_pos (-(steps.sum / 150))).le
  have hstart := mul_le_mul_of_nonneg_left hlower hexp
  have hsq : 0 ≤ Real.exp (-(steps.sum / 150)) *
      ((body.position - target) ^ 2 + body.velocity ^ 2) := by positivity
  unfold bodyEnergy at hdecay
  linarith

end Runs

end RobotController.Foundation.TargetTracking
