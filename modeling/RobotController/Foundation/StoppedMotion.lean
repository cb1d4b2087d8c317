/-
  Foundation/StoppedMotion.lean --- motion on a track with two ends.

  A body moves on a track: its speed is limited, a constant acceleration drives it, and
  an end of the track stops it and takes its drive away.  When the drive does not oppose
  the motion, time can be cut at will: moving for `S` and then for `T` is moving for
  `S + T`, whatever limit is reached when.
-/
import RobotController.Foundation.FirstLimit

set_option autoImplicit false

namespace RobotController.Foundation

/-! ## Driven motion -/

section Travel

variable {V v a S T : ℝ}

theorem travel_zero_limit (v a T : ℝ) : travel 0 v a T = 0 := by
  simp [travel, saturate, clamp]

/-- Forward motion that covers no distance is rest. -/
theorem still_of_travel_nonpos (hV : 0 ≤ V) (hv : 0 ≤ v) (ha : 0 ≤ a) (hT : 0 < T)
    (h : travel V v a T ≤ 0) : V = 0 ∨ v = 0 ∧ a = 0 := by
  by_contra hmoving
  rw [not_or, not_and_or] at hmoving
  obtain ⟨hV_ne, hdriven⟩ := hmoving
  have hV_pos : 0 < V := lt_of_le_of_ne hV (Ne.symm hV_ne)
  have hpos : 0 < travel V v a T := by
    refine travel_pos_of_forall hV_pos hT ?_
    intro t ht _
    rcases hdriven with hv_ne | ha_ne
    · have hv_pos : 0 < v := lt_of_le_of_ne hv (Ne.symm hv_ne)
      linarith [mul_nonneg ha ht.le]
    · have ha_pos : 0 < a := lt_of_le_of_ne ha (Ne.symm ha_ne)
      linarith [mul_pos ha_pos ht]
  exact absurd h (not_le.mpr hpos)

/-- Once the limit is passed it stays passed: limiting the velocity on the way changes
nothing. -/
theorem saturate_saturate_add (hV : 0 ≤ V) (hv : 0 ≤ v) (ha : 0 ≤ a) (hT : 0 ≤ T) :
    saturate V (saturate V v + a * T) = saturate V (v + a * T) := by
  have hgain : 0 ≤ a * T := mul_nonneg ha hT
  rcases le_total V v with hlimit | hlimit
  · rw [saturate_of_le hV hlimit, saturate_of_le hV (by linarith),
      saturate_of_le hV (by linarith)]
  · rw [saturate_of_mem (by linarith) hlimit]

theorem travel_saturate (hV : 0 ≤ V) (hv : 0 ≤ v) (ha : 0 ≤ a) (hT : 0 ≤ T) :
    travel V (saturate V v) a T = travel V v a T := by
  refine intervalIntegral.integral_congr fun t ht => ?_
  rw [Set.uIcc_of_le hT] at ht
  exact saturate_saturate_add hV hv ha ht.1

/-! ## Two drives -/

theorem saturate_mono {x y : ℝ} (h : x ≤ y) : saturate V x ≤ saturate V y :=
  max_le_max_left _ (min_le_min_right _ h)

theorem saturate_lt (hV : 0 < V) {x y : ℝ} (h : x < y) (hx : x < V) (hy : -V < y) :
    saturate V x < saturate V y := by
  have hbelow : saturate V x = max (-V) x := by
    rw [saturate, clamp, min_eq_left hx.le]
  have habove : saturate V y = min y V :=
    max_eq_right (le_min hy.le (neg_le_self hV.le))
  rw [hbelow, habove]
  rcases max_choice (-V) x with hmax | hmax
  · rw [hmax]
    exact lt_min hy (neg_lt_self hV)
  · rw [hmax]
    exact lt_min h hx

/-- A body that is below the limit, or brakes, is below the limit for a while. -/
theorem exists_below (hv : v ≤ V) (h : v < V ∨ a < 0) :
    ∃ δ, 0 < δ ∧ ∀ t, 0 < t → t < δ → v + a * t < V := by
  rcases le_or_gt a 0 with ha | ha
  · refine ⟨1, one_pos, fun t ht _ => ?_⟩
    rcases h with hlt | hneg
    · linarith [mul_nonpos_of_nonpos_of_nonneg ha ht.le]
    · linarith [mul_neg_of_neg_of_pos hneg ht]
  · have hlt := h.resolve_right (not_lt.mpr ha.le)
    refine ⟨(V - v) / a, div_pos (sub_pos.mpr hlt) ha, fun t _ ht => ?_⟩
    rw [lt_div_iff₀ ha] at ht
    linarith

/-- A stronger drive carries further, unless the limit hides the difference. -/
theorem travel_lt_travel {b : ℝ} (hV : 0 < V) (hv : -V ≤ v ∧ v ≤ V) (hT : 0 < T) (hab : a < b)
    (hupper : v < V ∨ a < 0) (hlower : -V < v ∨ 0 < b) : travel V v a T < travel V v b T := by
  obtain ⟨δ, hδ, hbelow⟩ := exists_below hv.2 hupper
  obtain ⟨ε, hε, habove⟩ := exists_below (V := V) (v := -v) (a := -b) (by linarith)
    (hlower.imp (by intro h; linarith) (by intro h; linarith))
  have hcont : ∀ c : ℝ, ContinuousOn (fun t => saturate V (v + c * t)) (Set.Icc 0 T) := fun c =>
    ((continuous_saturate V).comp (by fun_prop)).continuousOn
  refine intervalIntegral.integral_lt_integral_of_continuousOn_of_le_of_exists_lt hT
    (hcont a) (hcont b) ?_ ?_
  · intro t ht
    exact saturate_mono (by linarith [mul_le_mul_of_nonneg_right hab.le ht.1.le])
  · obtain ⟨t, ht, hmin⟩ := exists_between (lt_min hT (lt_min hδ hε))
    have hsmall := lt_min_iff.mp hmin
    have hlimits := lt_min_iff.mp hsmall.2
    refine ⟨t, ⟨ht.le, hsmall.1.le⟩, saturate_lt hV ?_ (hbelow t ht hlimits.1) ?_⟩
    · linarith [mul_lt_mul_of_pos_right hab ht]
    · linarith [habove t ht hlimits.2]

/-- Two drives that both push a body on at the speed limit, or that are equal. -/
def SameDrive (V v a b : ℝ) : Prop :=
  a = b ∨ (v = V ∧ 0 ≤ a ∧ 0 ≤ b) ∨ (v = -V ∧ a ≤ 0 ∧ b ≤ 0)

theorem SameDrive.symm {b : ℝ} (h : SameDrive V v a b) : SameDrive V v b a := by
  rcases h with rfl | ⟨hv, ha, hb⟩ | ⟨hv, ha, hb⟩
  · exact .inl rfl
  · exact .inr (.inl ⟨hv, hb, ha⟩)
  · exact .inr (.inr ⟨hv, hb, ha⟩)

theorem SameDrive.saturate_eq {b : ℝ} (hV : 0 ≤ V) (hT : 0 ≤ T) (h : SameDrive V v a b) :
    saturate V (v + a * T) = saturate V (v + b * T) := by
  rcases h with rfl | ⟨rfl, ha, hb⟩ | ⟨rfl, ha, hb⟩
  · rfl
  · rw [saturate_of_le hV (le_add_of_nonneg_right (mul_nonneg ha hT)),
      saturate_of_le hV (le_add_of_nonneg_right (mul_nonneg hb hT))]
  · have hlow : ∀ {c : ℝ}, c ≤ 0 → saturate V (-V + c * T) = -V := fun hc =>
      clamp_of_le_lo (add_le_of_nonpos_right (mul_nonpos_of_nonpos_of_nonneg hc hT))
    rw [hlow ha, hlow hb]

/-- Two drives carry a body equally far exactly if they are the same to it. -/
theorem travel_eq_iff {b : ℝ} (hV : 0 < V) (hv : -V ≤ v ∧ v ≤ V) (hT : 0 < T) :
    travel V v a T = travel V v b T ↔ SameDrive V v a b := by
  constructor
  · have hstrict : ∀ {c d : ℝ}, c < d → travel V v c T = travel V v d T →
        SameDrive V v c d := by
      intro c d hlt heq
      by_contra hdiffer
      unfold SameDrive at hdiffer
      push Not at hdiffer
      obtain ⟨-, hupper, hlower⟩ := hdiffer
      refine absurd heq (travel_lt_travel hV hv hT hlt ?_ ?_).ne
      · by_contra hnot
        push Not at hnot
        have hlimit := le_antisymm hv.2 hnot.1
        linarith [hupper hlimit hnot.2]
      · by_contra hnot
        push Not at hnot
        have hlimit := le_antisymm hnot.1 hv.1
        linarith [hlower hlimit (hlt.le.trans hnot.2)]
    intro heq
    rcases lt_trichotomy a b with hlt | rfl | hgt
    · exact hstrict hlt heq
    · exact .inl rfl
    · exact (hstrict hgt heq.symm).symm
  · intro h
    refine intervalIntegral.integral_congr fun t ht => ?_
    rw [Set.uIcc_of_le hT.le] at ht
    exact h.saturate_eq hV.le ht.1

/-- A body that covers no distance and ends as fast as it began is not driven. -/
theorem drive_eq_zero (hV : 0 < V) (hT : 0 < T) (hv : -V ≤ v ∧ v ≤ V)
    (htravel : travel V v a T = 0) (hend : saturate V (v + a * T) = v) : a = 0 := by
  have hforward : ∀ {w b : ℝ}, -V ≤ w → w ≤ V → 0 < b → travel V w b T = 0 →
      saturate V (w + b * T) ≠ w := by
    intro w b hlow hhigh hb hzero hsame
    have hgain := mul_pos hb hT
    rcases hhigh.lt_or_eq with hlt | rfl
    · have hfaster := saturate_lt hV (lt_add_of_pos_right w hgain) hlt (by linarith)
      rw [hsame, saturate_of_mem hlow hhigh] at hfaster
      exact lt_irrefl w hfaster
    · rw [travel_of_limit_le hV.le hT.le hb.le le_rfl] at hzero
      linarith [mul_pos hV hT]
  rcases lt_trichotomy a 0 with hneg | hzero | hpos
  · have hmirror : travel V (-v) (-a) T = 0 := by rw [travel_neg hV.le, htravel, neg_zero]
    have hend' : saturate V (-v + -a * T) = -v := by
      have hsum : -v + -a * T = -(v + a * T) := by ring
      rw [hsum, saturate_neg hV.le, hend]
    exact absurd hend' (hforward (by linarith) (by linarith) (neg_pos.mpr hneg) hmirror)
  · exact hzero
  · exact absurd hend (hforward hv.1 hv.2 hpos htravel)

end Travel

/-- Two points that are held at the same place. -/
theorem clamp_eq_clamp {lo hi x y : ℝ} (hlimits : lo < hi) (h : clamp lo hi x = clamp lo hi y) :
    x = y ∨ (x ≤ lo ∧ y ≤ lo) ∨ (hi ≤ x ∧ hi ≤ y) := by
  simp only [clamp, max_def, min_def] at h
  split_ifs at h <;> grind

/-! ## Bodies and tracks -/

/-- Where a body is, how fast it moves and what drives it. -/
@[ext] structure Body where
  position : ℝ
  velocity : ℝ
  acceleration : ℝ

namespace Body

/-- The drive does not oppose the motion. -/
def Unopposed (body : Body) : Prop := 0 ≤ body.acceleration * body.velocity

/-- The mirror image. -/
def mirror (body : Body) : Body := ⟨-body.position, -body.velocity, -body.acceleration⟩

theorem mirror_injective : Function.Injective mirror := by
  intro left right h
  rw [mirror, mirror, Body.mk.injEq, neg_inj, neg_inj, neg_inj] at h
  exact Body.ext h.1 h.2.1 h.2.2

theorem Unopposed.cases {body : Body} (h : body.Unopposed) :
    0 ≤ body.velocity ∧ 0 ≤ body.acceleration ∨ body.velocity ≤ 0 ∧ body.acceleration ≤ 0 := by
  rcases mul_nonneg_iff.mp h with ⟨ha, hv⟩ | ⟨ha, hv⟩
  · exact .inl ⟨hv, ha⟩
  · exact .inr ⟨hv, ha⟩

end Body

/-- A track: its two ends and its speed limit. -/
structure Track where
  lo : ℝ
  hi : ℝ
  speed : ℝ
  lo_le_hi : lo ≤ hi
  speed_nonneg : 0 ≤ speed

namespace Track

variable {track : Track} {body : Body} {S T : ℝ}

/-- Where the body would be after the time `T` without the ends of the track. -/
noncomputable def free (track : Track) (T : ℝ) (body : Body) : ℝ :=
  body.position + travel track.speed body.velocity body.acceleration T

/-- Move for the time `T`; an end of the track that is reached or passed stops the body and
takes its drive away. -/
noncomputable def advance (track : Track) (T : ℝ) (body : Body) : Body :=
  if track.free T body ≤ track.lo then ⟨track.lo, 0, 0⟩
  else if track.hi ≤ track.free T body then ⟨track.hi, 0, 0⟩
  else ⟨track.free T body, saturate track.speed (body.velocity + body.acceleration * T),
    body.acceleration⟩

/-- The body is on the track and within the speed limit. -/
structure On (track : Track) (body : Body) : Prop where
  lo_le : track.lo ≤ body.position
  le_hi : body.position ≤ track.hi
  speed_le : |body.velocity| ≤ track.speed

theorem advance_of_le_lo (h : track.free T body ≤ track.lo) :
    track.advance T body = ⟨track.lo, 0, 0⟩ :=
  if_pos h

theorem advance_of_hi_le (h : track.hi ≤ track.free T body) :
    track.advance T body = ⟨track.hi, 0, 0⟩ := by
  by_cases hlow : track.free T body ≤ track.lo
  · have hends : track.lo = track.hi := le_antisymm track.lo_le_hi (h.trans hlow)
    rw [advance_of_le_lo hlow, hends]
  · exact (if_neg hlow).trans (if_pos h)

theorem advance_of_between (hlow : track.lo < track.free T body)
    (hhigh : track.free T body < track.hi) :
    track.advance T body = ⟨track.free T body,
      saturate track.speed (body.velocity + body.acceleration * T), body.acceleration⟩ :=
  (if_neg (not_le.mpr hlow)).trans (if_neg (not_le.mpr hhigh))

/-- The ends of the track hold what would pass them. -/
theorem position_advance (track : Track) (T : ℝ) (body : Body) :
    (track.advance T body).position = clamp track.lo track.hi (track.free T body) := by
  rcases le_or_gt (track.free T body) track.lo with hlow | hlow
  · rw [advance_of_le_lo hlow, clamp_of_le_lo hlow]
  · rcases le_or_gt track.hi (track.free T body) with hhigh | hhigh
    · rw [advance_of_hi_le hhigh, clamp_of_hi_le track.lo_le_hi hhigh]
    · rw [advance_of_between hlow hhigh, clamp_of_mem hlow.le hhigh.le]

/-- A body at rest without a drive stays where it is. -/
theorem free_rest (track : Track) (hT : 0 ≤ T) (position : ℝ) :
    track.free T ⟨position, 0, 0⟩ = position := by
  have htravel : travel track.speed 0 0 T = 0 :=
    travel_rest_eq_zero hT track.speed_nonneg (.inr rfl)
  simp [free, htravel]

/-! ## The mirror image -/

/-- The track seen from the other side. -/
def mirror (track : Track) : Track where
  lo := -track.hi
  hi := -track.lo
  speed := track.speed
  lo_le_hi := neg_le_neg track.lo_le_hi
  speed_nonneg := track.speed_nonneg

theorem free_mirror (track : Track) (T : ℝ) (body : Body) :
    track.mirror.free T body.mirror = -track.free T body := by
  change -body.position + travel track.speed (-body.velocity) (-body.acceleration) T = _
  rw [travel_neg track.speed_nonneg, free]
  ring

theorem On.mirror (h : track.On body) : track.mirror.On body.mirror :=
  ⟨neg_le_neg h.le_hi, neg_le_neg h.lo_le, by simpa [Body.mirror, Track.mirror] using h.speed_le⟩

/-! ## Invariants -/

theorem On.velocity_mem (h : track.On body) :
    -track.speed ≤ body.velocity ∧ body.velocity ≤ track.speed :=
  abs_le.mp h.speed_le

theorem on_advance (track : Track) (T : ℝ) (body : Body) : track.On (track.advance T body) := by
  have hrest : |(0 : ℝ)| ≤ track.speed := by
    rw [abs_zero]
    exact track.speed_nonneg
  rcases le_or_gt (track.free T body) track.lo with hlow | hlow
  · rw [advance_of_le_lo hlow]
    exact ⟨le_refl _, track.lo_le_hi, hrest⟩
  · rcases le_or_gt track.hi (track.free T body) with hhigh | hhigh
    · rw [advance_of_hi_le hhigh]
      exact ⟨track.lo_le_hi, le_refl _, hrest⟩
    · rw [advance_of_between hlow hhigh]
      exact ⟨hlow.le, hhigh.le,
        abs_le.mpr ⟨neg_le_saturate _ _, saturate_le track.speed_nonneg⟩⟩

theorem advance_mirror (track : Track) (T : ℝ) (body : Body) :
    track.mirror.advance T body.mirror = (track.advance T body).mirror := by
  have hfree := track.free_mirror T body
  rcases le_or_gt (track.free T body) track.lo with hlow | hlow
  · have hhigh : track.mirror.hi ≤ track.mirror.free T body.mirror := by
      rw [hfree]
      exact neg_le_neg hlow
    rw [advance_of_hi_le hhigh, advance_of_le_lo hlow]
    simp [mirror, Body.mirror]
  · rcases le_or_gt track.hi (track.free T body) with hhigh | hhigh
    · have hlow' : track.mirror.free T body.mirror ≤ track.mirror.lo := by
        rw [hfree]
        exact neg_le_neg hhigh
      rw [advance_of_le_lo hlow', advance_of_hi_le hhigh]
      simp [mirror, Body.mirror]
    · have hbetween := And.intro (neg_lt_neg hhigh) (neg_lt_neg hlow)
      rw [← hfree] at hbetween
      have hvelocity : saturate track.speed (-body.velocity + -body.acceleration * T) =
          -saturate track.speed (body.velocity + body.acceleration * T) := by
        rw [← saturate_neg track.speed_nonneg]
        ring_nf
      rw [advance_of_between hbetween.1 hbetween.2, advance_of_between hlow hhigh, hfree]
      exact Body.ext rfl hvelocity rfl

/-! ## Cutting time -/

/-- Forward motion, cut at `S`. -/
theorem free_add (track : Track) (hv : 0 ≤ body.velocity) (ha : 0 ≤ body.acceleration) (hS : 0 ≤ S)
    (hT : 0 ≤ T) :
    track.free (S + T) body = track.free S body +
      travel track.speed (saturate track.speed (body.velocity + body.acceleration * S))
        body.acceleration T := by
  have hreached : 0 ≤ body.velocity + body.acceleration * S :=
    add_nonneg hv (mul_nonneg ha hS)
  rw [travel_saturate track.speed_nonneg hreached ha hT, free, free,
    travel_add _ _ _ S (S + T), add_sub_cancel_left]
  ring

theorem advance_add_of_forward (hon : track.On body) (hv : 0 ≤ body.velocity)
    (ha : 0 ≤ body.acceleration) (hS : 0 < S) (hT : 0 < T) :
    track.advance T (track.advance S body) = track.advance (S + T) body := by
  have hreached : 0 ≤ body.velocity + body.acceleration * S :=
    add_nonneg hv (mul_nonneg ha hS.le)
  have hadd := free_add track hv ha hS.le hT.le
  rcases le_or_gt (track.free S body) track.lo with hlow | hlow
  · -- A body that moves forward meets the lower end only if it rests there.
    have htravel : travel track.speed body.velocity body.acceleration S ≤ 0 := by
      have hstart := hon.lo_le
      unfold free at hlow
      linarith
    have hlater : track.free (S + T) body ≤ track.lo := by
      have hmore : travel track.speed
          (saturate track.speed (body.velocity + body.acceleration * S))
          body.acceleration T = 0 := by
        rcases still_of_travel_nonpos track.speed_nonneg hv ha hS htravel with hV | ⟨hv0, ha0⟩
        · rw [hV, travel_zero_limit]
        · have hrest : (0 : ℝ) + 0 * S = 0 := by ring
          rw [hv0, ha0, hrest, travel_saturate track.speed_nonneg le_rfl le_rfl hT.le]
          exact travel_rest_eq_zero hT.le track.speed_nonneg (.inr rfl)
      rw [hadd, hmore, add_zero]
      exact hlow
    rw [advance_of_le_lo hlow, advance_of_le_lo hlater,
      advance_of_le_lo (track.free_rest hT.le track.lo).le]
  · rcases le_or_gt track.hi (track.free S body) with hhigh | hhigh
    · have hmore : 0 ≤ travel track.speed
          (saturate track.speed (body.velocity + body.acceleration * S))
          body.acceleration T := by
        have hvelocity := saturate_nonneg track.speed_nonneg hreached
        exact travel_nonneg track.speed_nonneg hT.le hvelocity
          (add_nonneg hvelocity (mul_nonneg ha hT.le))
      rw [advance_of_hi_le hhigh, advance_of_hi_le (track.free_rest hT.le track.hi).ge,
        advance_of_hi_le (by linarith)]
    · rw [advance_of_between hlow hhigh]
      have hfree : track.free T ⟨track.free S body,
          saturate track.speed (body.velocity + body.acceleration * S), body.acceleration⟩ =
          track.free (S + T) body := hadd.symm
      have hvelocity : saturate track.speed
          (saturate track.speed (body.velocity + body.acceleration * S) +
            body.acceleration * T) =
          saturate track.speed (body.velocity + body.acceleration * (S + T)) := by
        rw [saturate_saturate_add track.speed_nonneg hreached ha hT.le]
        ring_nf
      simp only [advance, hfree, hvelocity]

/-- Moving for `S` and then for `T` is moving for `S + T`. -/
theorem advance_add (hon : track.On body) (hforward : body.Unopposed) (hS : 0 < S) (hT : 0 < T) :
    track.advance T (track.advance S body) = track.advance (S + T) body := by
  rcases hforward.cases with ⟨hv, ha⟩ | ⟨hv, ha⟩
  · exact advance_add_of_forward hon hv ha hS hT
  · have hmirror := advance_add_of_forward hon.mirror (neg_nonneg.mpr hv) (neg_nonneg.mpr ha) hS hT
    rw [advance_mirror, advance_mirror, advance_mirror] at hmirror
    exact Body.mirror_injective hmirror

theorem unopposed_advance (track : Track) {T : ℝ} (hT : 0 ≤ T) (h : body.Unopposed) :
    (track.advance T body).Unopposed := by
  rcases le_or_gt (track.free T body) track.lo with hlow | hlow
  · rw [advance_of_le_lo hlow]
    simp [Body.Unopposed]
  · rcases le_or_gt track.hi (track.free T body) with hhigh | hhigh
    · rw [advance_of_hi_le hhigh]
      simp [Body.Unopposed]
    · rw [advance_of_between hlow hhigh]
      rcases h.cases with ⟨hv, ha⟩ | ⟨hv, ha⟩
      · exact mul_nonneg ha
          (saturate_nonneg track.speed_nonneg (add_nonneg hv (mul_nonneg ha hT)))
      · refine mul_nonneg_of_nonpos_of_nonpos ha ?_
        have hmirror : 0 ≤ saturate track.speed (-(body.velocity + body.acceleration * T)) :=
          saturate_nonneg track.speed_nonneg
            (by linarith [mul_nonpos_of_nonpos_of_nonneg ha hT])
        rw [saturate_neg track.speed_nonneg] at hmirror
        linarith

/-- However time is cut into pieces, the motion is the same. -/
theorem foldl_advance : ∀ (pieces : List ℝ) {body : Body}, pieces ≠ [] →
    (∀ T ∈ pieces, 0 < T) → track.On body → body.Unopposed →
      pieces.foldl (fun current T => track.advance T current) body =
        track.advance pieces.sum body := by
  intro pieces
  induction pieces with
  | nil => exact fun h => absurd rfl h
  | cons T rest ih =>
      intro body _ hpos hon hforward
      rw [List.forall_mem_cons] at hpos
      rw [List.foldl_cons, List.sum_cons]
      rcases eq_or_ne rest [] with rfl | hne
      · rw [List.foldl_nil, List.sum_nil, add_zero]
      · have hrest : 0 < rest.sum := List.sum_pos rest hpos.2 hne
        rw [ih hne hpos.2 (track.on_advance T body) (unopposed_advance track hpos.1.le hforward),
          advance_add hon hforward hpos.1 hrest]

/-! ## Rest -/

/-- A body that a step leaves as it is, is at rest and not driven along the track. -/
theorem drive_of_rests (hon : track.On body) (hspeed : 0 < track.speed) (hT : 0 < T)
    (hposition : (track.advance T body).position = body.position)
    (hvelocity : (track.advance T body).velocity = body.velocity) :
    body.velocity = 0 ∧ (body.acceleration = 0 ∨
      body.position = track.lo ∧ body.acceleration ≤ 0 ∨
      body.position = track.hi ∧ 0 ≤ body.acceleration) := by
  rcases le_or_gt (track.free T body) track.lo with hlow | hlow
  · rw [advance_of_le_lo hlow] at hposition hvelocity
    refine ⟨hvelocity.symm, .inr (.inl ⟨hposition.symm, ?_⟩)⟩
    by_contra hforward
    have hpos := travel_pos_of_forall hspeed hT (v := 0) (a := body.acceleration)
      fun t ht _ => by linarith [mul_pos (not_le.mp hforward) ht]
    rw [free, ← hposition, ← hvelocity] at hlow
    linarith
  · rcases le_or_gt track.hi (track.free T body) with hhigh | hhigh
    · rw [advance_of_hi_le hhigh] at hposition hvelocity
      refine ⟨hvelocity.symm, .inr (.inr ⟨hposition.symm, ?_⟩)⟩
      by_contra hback
      have hneg := travel_rest_neg hspeed (not_le.mp hback) hT
      rw [free, ← hposition, ← hvelocity] at hhigh
      linarith
    · rw [advance_of_between hlow hhigh] at hposition hvelocity
      have htravel : travel track.speed body.velocity body.acceleration T = 0 := by
        have hfree : track.free T body = body.position := hposition
        unfold free at hfree
        linarith
      have hdrive := drive_eq_zero hspeed hT hon.velocity_mem htravel hvelocity
      have hrest : body.velocity = 0 := by
        rw [hdrive, travel_of_mem hT.le hon.velocity_mem (by simpa using hon.velocity_mem)]
          at htravel
        have hdistance : body.velocity * T = 0 := by linarith
        exact (mul_eq_zero.mp hdistance).resolve_right hT.ne'
      exact ⟨hrest, .inl hdrive⟩

/-- A body at rest that is not driven along the track stays there. -/
theorem rests_of_drive (hon : track.On body) (hspeed : 0 < track.speed) (hT : 0 < T)
    (hvelocity : body.velocity = 0)
    (hdrive : body.acceleration = 0 ∨ body.position = track.lo ∧ body.acceleration ≤ 0 ∨
      body.position = track.hi ∧ 0 ≤ body.acceleration) :
    (track.advance T body).position = body.position ∧
      (track.advance T body).velocity = body.velocity := by
  obtain ⟨hvelocity_low, hvelocity_high⟩ := hon.velocity_mem
  have hfree : track.free T body =
      body.position + travel track.speed 0 body.acceleration T := by
    rw [free, hvelocity]
  rcases hdrive with hdrive | ⟨hposition, hdrive⟩ | ⟨hposition, hdrive⟩
  · rw [hdrive, travel_rest_eq_zero hT.le hspeed.le (.inr rfl), add_zero] at hfree
    rcases le_or_gt (track.free T body) track.lo with hlow | hlow
    · rw [advance_of_le_lo hlow]
      exact ⟨le_antisymm hon.lo_le (hfree ▸ hlow), hvelocity.symm⟩
    · rcases le_or_gt track.hi (track.free T body) with hhigh | hhigh
      · rw [advance_of_hi_le hhigh]
        exact ⟨le_antisymm (hfree ▸ hhigh) hon.le_hi, hvelocity.symm⟩
      · rw [advance_of_between hlow hhigh, hdrive, zero_mul, add_zero]
        exact ⟨hfree, saturate_of_mem hvelocity_low hvelocity_high⟩
  · have hback := travel_nonpos hspeed.le hT.le le_rfl (v := 0) (a := body.acceleration)
      (by linarith [mul_nonpos_of_nonpos_of_nonneg hdrive hT.le])
    rw [advance_of_le_lo (by linarith)]
    exact ⟨hposition.symm, hvelocity.symm⟩
  · have hforward := travel_nonneg hspeed.le hT.le le_rfl (v := 0) (a := body.acceleration)
      (by linarith [mul_nonneg hdrive hT.le])
    rw [advance_of_hi_le (by linarith)]
    exact ⟨hposition.symm, hvelocity.symm⟩

/-- Where a step leaves a body: it stays at rest where no drive acts, or at an end of the track
that it is driven against. -/
theorem rests_iff (hon : track.On body) (hspeed : 0 < track.speed) (hT : 0 < T) :
    ((track.advance T body).position = body.position ∧
        (track.advance T body).velocity = body.velocity) ↔
      body.velocity = 0 ∧ (body.acceleration = 0 ∨
        body.position = track.lo ∧ body.acceleration ≤ 0 ∨
        body.position = track.hi ∧ 0 ≤ body.acceleration) := by
  constructor
  · intro h
    exact drive_of_rests hon hspeed hT h.1 h.2
  · intro h
    exact rests_of_drive hon hspeed hT h.1 h.2

/-! ## Two drives of one body -/

/-- Whether two drives leave a body in the same place at the same speed: they are the same to
it, or both take it to the same end of the track. -/
theorem same_state_iff (hon : track.On body) (hspeed : 0 < track.speed)
    (hends : track.lo < track.hi) (hT : 0 < T) {other : Body}
    (hposition : other.position = body.position) (hvelocity : other.velocity = body.velocity) :
    ((track.advance T body).position = (track.advance T other).position ∧
        (track.advance T body).velocity = (track.advance T other).velocity) ↔
      SameDrive track.speed body.velocity body.acceleration other.acceleration ∨
        (track.free T body ≤ track.lo ∧ track.free T other ≤ track.lo) ∨
        (track.hi ≤ track.free T body ∧ track.hi ≤ track.free T other) := by
  have hsame : track.free T body = track.free T other ↔
      SameDrive track.speed body.velocity body.acceleration other.acceleration := by
    rw [free, free, hposition, hvelocity, add_right_inj]
    exact travel_eq_iff hspeed hon.velocity_mem hT
  constructor
  · rintro ⟨hp, -⟩
    rw [position_advance, position_advance] at hp
    exact (clamp_eq_clamp hends hp).imp_left hsame.mp
  · rintro (hdrive | ⟨hlow, hlow'⟩ | ⟨hhigh, hhigh'⟩)
    · have hfree := hsame.mpr hdrive
      have hend := hdrive.saturate_eq track.speed_nonneg hT.le
      rw [advance, advance, hvelocity, ← hfree, hend]
      split_ifs <;> exact ⟨rfl, rfl⟩
    · rw [advance_of_le_lo hlow, advance_of_le_lo hlow']
      exact ⟨rfl, rfl⟩
    · rw [advance_of_hi_le hhigh, advance_of_hi_le hhigh']
      exact ⟨rfl, rfl⟩

end Track

end RobotController.Foundation
