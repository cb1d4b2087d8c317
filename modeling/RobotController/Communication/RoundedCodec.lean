/-
  Communication/RoundedCodec.lean --- re-encoding a decoded frame, as `double` rounds.

  Decoding divides a number of hundredths by 100, encoding multiplies by 100 and
  discards the fraction.  Both operations are rounded.  When the rounded product lies
  just below the number it started from, discarding the fraction takes away a whole
  hundredth: the payloads where this happens are determined here by the remainder of the
  scaled payload modulo 100.
-/
import RobotController.Communication.Codec
import RobotController.Foundation.Binary64
import RobotController.Foundation.Truncation
import Mathlib.Data.Nat.Log

set_option autoImplicit false

namespace RobotController.Communication

open RobotController.Foundation RobotController.Core

/-! ## Lossy payloads -/

/-- `s` brings the hundredths `m` into the range of 53-bit significands:
`2 ^ 52 ≤ m * 2 ^ s / 100 < 2 ^ 53`. -/
def Scales (m s : ℕ) : Prop := 100 * 2 ^ 52 ≤ m * 2 ^ s ∧ m * 2 ^ s < 200 * 2 ^ 52

/-- The scaled payload stays below `2 ^ 59` and leaves a remainder between 32 and 50
when it is divided by 100. -/
def Lossy (n : ℤ) : Prop :=
  ∃ s < 59, 100 * 2 ^ 52 ≤ n.natAbs * 2 ^ s ∧ n.natAbs * 2 ^ s < 2 ^ 59 ∧
    32 < n.natAbs * 2 ^ s % 100 ∧ n.natAbs * 2 ^ s % 100 < 50

section Scale

variable {m s : ℕ}

theorem Scales.unique {r : ℕ} (hs : Scales m s) (hr : Scales m r) : s = r := by
  -- Doubling a number of the range leaves the range.
  have hstep : ∀ {i j : ℕ}, Scales m i → Scales m j → ¬ i < j := by
    intro i j hi hj hlt
    have hdouble : m * 2 ^ (i + 1) ≤ m * 2 ^ j :=
      Nat.mul_le_mul_left m (Nat.pow_le_pow_right (by decide) hlt)
    have hsucc : m * 2 ^ (i + 1) = 2 * (m * 2 ^ i) := by ring
    have hlow := hi.1
    have hhigh := hj.2
    omega
  exact Nat.le_antisymm (Nat.not_lt.mp (hstep hr hs)) (Nat.not_lt.mp (hstep hs hr))

/-- Every payload but zero has a scale. -/
theorem exists_scales (hpos : 0 < m) (hle : m ≤ 2 ^ 31) :
    ∃ s, 27 ≤ s ∧ s ≤ 59 ∧ Scales m s := by
  have hlow := Nat.pow_log_le_self 2 hpos.ne'
  have hhigh := Nat.lt_pow_succ_log_self (by decide : 1 < 2) m
  have hlog : Nat.log 2 m ≤ 31 := by
    calc Nat.log 2 m ≤ Nat.log 2 (2 ^ 31) := Nat.log_mono_right hle
      _ = 31 := Nat.log_pow (by decide) 31
  have hscaled_low : 2 ^ 58 ≤ m * 2 ^ (58 - Nat.log 2 m) := by
    calc 2 ^ 58 = 2 ^ Nat.log 2 m * 2 ^ (58 - Nat.log 2 m) := by
          rw [← pow_add]
          congr 1
          omega
      _ ≤ m * 2 ^ (58 - Nat.log 2 m) := Nat.mul_le_mul_right _ hlow
  have hscaled_high : m * 2 ^ (58 - Nat.log 2 m) < 2 ^ 59 := by
    calc m * 2 ^ (58 - Nat.log 2 m)
        < 2 ^ (Nat.log 2 m + 1) * 2 ^ (58 - Nat.log 2 m) :=
          Nat.mul_lt_mul_of_pos_right hhigh (by positivity)
      _ = 2 ^ 59 := by
          rw [← pow_add]
          congr 1
          omega
  rcases Nat.lt_or_ge (m * 2 ^ (58 - Nat.log 2 m)) (100 * 2 ^ 52) with hlt | hge
  · refine ⟨58 - Nat.log 2 m + 1, by omega, by omega, ?_⟩
    have hsucc : m * 2 ^ (58 - Nat.log 2 m + 1) = 2 * (m * 2 ^ (58 - Nat.log 2 m)) := by ring
    unfold Scales
    omega
  · refine ⟨58 - Nat.log 2 m, by omega, by omega, hge, ?_⟩
    omega

/-- Whether a payload is lossy can be read off at its scale. -/
theorem lossy_iff {n : ℤ} (h : Scales n.natAbs s) :
    Lossy n ↔ n.natAbs * 2 ^ s < 2 ^ 59 ∧ 32 < n.natAbs * 2 ^ s % 100 ∧
      n.natAbs * 2 ^ s % 100 < 50 := by
  constructor
  · rintro ⟨r, -, hlow, hlt, hremainder⟩
    have hr : Scales n.natAbs r := ⟨hlow, by omega⟩
    obtain rfl := h.unique hr
    exact ⟨hlt, hremainder⟩
  · rintro ⟨hlt, hremainder⟩
    refine ⟨s, ?_, h.1, hlt, hremainder⟩
    by_contra hge
    have hpos : 0 < n.natAbs := by
      by_contra hzero
      have hlow := h.1
      rw [Nat.eq_zero_of_not_pos hzero, Nat.zero_mul] at hlow
      omega
    have hpow : 2 ^ 59 ≤ n.natAbs * 2 ^ s := by
      calc 2 ^ 59 ≤ 2 ^ s := Nat.pow_le_pow_right (by decide) (Nat.not_lt.mp hge)
        _ ≤ n.natAbs * 2 ^ s := Nat.le_mul_of_pos_left _ hpos
    omega

theorem not_lossy_zero : ¬ Lossy 0 := by
  rintro ⟨s, -, hlow, -⟩
  rw [Int.natAbs_zero, Nat.zero_mul] at hlow
  omega

theorem lossy_neg {n : ℤ} : Lossy (-n) ↔ Lossy n := by
  unfold Lossy
  rw [Int.natAbs_neg]

end Scale

/-! ## The two roundings -/

/-- `static_cast<double>(n) / 100.0 * 100.0`. -/
def rescaled (n : ℤ) : ℚ :=
  FloatFormat.binary64.round (FloatFormat.binary64.round (n / 100) * 100)

theorem rescaled_neg (n : ℤ) : rescaled (-n) = -rescaled n := by
  simp only [rescaled, Int.cast_neg, neg_div, FloatFormat.round_neg, neg_mul]

section Rescaled

variable {m s : ℕ}

/-- The rounded quotient: `k / 2 ^ s`, where `100 * k` is at most 48 away from the scaled
payload. -/
theorem exists_round_quotient (hs : s ≤ 1074) (h : Scales m s) (hfour : 4 ∣ m * 2 ^ s) :
    ∃ k : ℤ, FloatFormat.binary64.round (m / 100) = k / 2 ^ s ∧
      |(m * 2 ^ s : ℕ) - 100 * k| ≤ 48 := by
  have hscaled : (m / 100 : ℚ) * 2 ^ s = (m * 2 ^ s : ℕ) / 100 := by
    push_cast
    ring
  have hlow : (100 * 2 ^ 52 : ℚ) ≤ (m * 2 ^ s : ℕ) := by exact_mod_cast h.1
  have hhigh : ((m * 2 ^ s : ℕ) : ℚ) < 200 * 2 ^ 52 := by exact_mod_cast h.2
  have hnonneg : (0 : ℚ) ≤ (m * 2 ^ s : ℕ) / 100 := by positivity
  refine ⟨roundEven ((m * 2 ^ s : ℕ) / 100), ?_, ?_⟩
  · rw [← hscaled]
    refine FloatFormat.round_scaled ?_ ?_ ?_
    · change (-1074 : ℤ) ≤ -s
      omega
    · change (2 : ℚ) ^ 52 ≤ _
      rw [hscaled, abs_of_nonneg hnonneg]
      linarith
    · change _ < (2 : ℚ) ^ 53
      rw [hscaled, abs_of_nonneg hnonneg]
      linarith
  · have herror := abs_le.mp (abs_sub_roundEven_le ((m * 2 ^ s : ℕ) / 100 : ℚ))
    generalize roundEven ((m * 2 ^ s : ℕ) / 100 : ℚ) = k at herror
    have hclose : |((m * 2 ^ s : ℕ) : ℤ) - 100 * k| ≤ 50 := by
      have hcast : |(((m * 2 ^ s : ℕ) : ℤ) - 100 * k : ℚ)| ≤ 50 := by
        rw [Int.cast_natCast, abs_le]
        constructor <;> linarith
      exact_mod_cast hcast
    -- Both sides are multiples of four, so the difference is not 49 or 50.
    obtain ⟨j, hj⟩ := hfour
    rw [abs_le] at hclose ⊢
    omega

/-- The rounded product of the quotient `k / 2 ^ s`, when its last place is worth
`2 ^ u` units of the scaled payload. -/
theorem rescaled_eq {u : ℕ} (hs : s ≤ 59) (hu : u ≤ s) {k : ℤ}
    (hquotient : FloatFormat.binary64.round (m / 100) = k / 2 ^ s)
    (hlow : 2 ^ 52 * 2 ^ u ≤ 100 * k) (hhigh : 100 * k < 2 ^ 53 * 2 ^ u) :
    rescaled m = roundEven ((100 * k : ℤ) / 2 ^ u) / 2 ^ (s - u) := by
  have hscaled : ((k : ℚ) / 2 ^ s * 100) * 2 ^ (s - u) = (100 * k : ℤ) / 2 ^ u := by
    have hsplit : (2 : ℚ) ^ s = 2 ^ (s - u) * 2 ^ u := by rw [← pow_add, Nat.sub_add_cancel hu]
    rw [hsplit]
    push_cast
    field_simp
  have hpower : (0 : ℚ) < 2 ^ u := by positivity
  have hlow_cast : (2 ^ 52 * 2 ^ u : ℚ) ≤ (100 * k : ℤ) := by exact_mod_cast hlow
  have hhigh_cast : ((100 * k : ℤ) : ℚ) < 2 ^ 53 * 2 ^ u := by exact_mod_cast hhigh
  have hnonneg : (0 : ℚ) ≤ (100 * k : ℤ) / 2 ^ u :=
    div_nonneg ((by positivity : (0 : ℚ) ≤ 2 ^ 52 * 2 ^ u).trans hlow_cast) hpower.le
  rw [rescaled, Int.cast_natCast, hquotient, ← hscaled]
  refine FloatFormat.round_scaled ?_ ?_ ?_
  · change (-1074 : ℤ) ≤ -((s - u : ℕ) : ℤ)
    omega
  · change (2 : ℚ) ^ 52 ≤ _
    rw [hscaled, abs_of_nonneg hnonneg, le_div_iff₀ hpower]
    exact hlow_cast
  · change _ < (2 : ℚ) ^ 53
    rw [hscaled, abs_of_nonneg hnonneg, div_lt_iff₀ hpower]
    exact hhigh_cast

/-- A scaled payload that is `j` last places, taken back to its scale. -/
theorem div_pow_eq {u : ℕ} (hu : u ≤ s) {j : ℤ} (hj : ((m * 2 ^ s : ℕ) : ℤ) = 2 ^ u * j) :
    (j : ℚ) / 2 ^ (s - u) = m := by
  have hcast : (m : ℚ) * 2 ^ s = 2 ^ u * j := by exact_mod_cast hj
  have hsplit : (2 : ℚ) ^ s = 2 ^ (s - u) * 2 ^ u := by rw [← pow_add, Nat.sub_add_cancel hu]
  have hpower : (2 : ℚ) ^ u ≠ 0 := by positivity
  rw [div_eq_iff (by positivity)]
  rw [hsplit, ← mul_assoc, mul_comm ((2 : ℚ) ^ u)] at hcast
  exact (mul_right_cancel₀ hpower hcast).symm

/-- The nearest integer, for a fraction whose numerator is known. -/
theorem nearest_div {u : ℕ} {p j : ℤ}
    (h : 2 * |p - 2 ^ u * j| < 2 ^ u ∨ 2 * |p - 2 ^ u * j| = 2 ^ u ∧ Even j) :
    roundEven ((p : ℚ) / 2 ^ u) = j := by
  have hpower : (0 : ℚ) < 2 ^ u := by positivity
  have hdistance : |(p : ℚ) / 2 ^ u - j| = (|p - 2 ^ u * j| : ℤ) / 2 ^ u := by
    have hsub : (p : ℚ) / 2 ^ u - j = ((p - 2 ^ u * j : ℤ) : ℚ) / 2 ^ u := by
      push_cast
      field_simp
    rw [hsub, abs_div, abs_of_pos hpower, Int.cast_abs]
  refine roundEven_eq ?_
  unfold Nearest
  rw [hdistance, div_lt_iff₀ hpower, div_eq_iff hpower.ne']
  rcases h with hlt | ⟨htie, heven⟩
  · left
    have hcast : (2 * (|p - 2 ^ u * j| : ℤ) : ℚ) < 2 ^ u := by exact_mod_cast hlt
    linarith
  · right
    have hcast : (2 * (|p - 2 ^ u * j| : ℤ) : ℚ) = 2 ^ u := by exact_mod_cast htie
    exact ⟨by linarith, heven⟩

/-- The rounded product where its last place is worth 64 units: the scaled payload is an even
number of last places, and a tie goes to it. -/
theorem rescaled_cases_of_lt (hs : 6 ≤ s) (hs' : s ≤ 59) {k j : ℤ}
    (hj : ((m * 2 ^ s : ℕ) : ℤ) = 2 ^ 6 * (2 * j))
    (hquotient : FloatFormat.binary64.round (m / 100) = k / 2 ^ s)
    (hclose : |(m * 2 ^ s : ℕ) - 100 * k| ≤ 48) (hlow : 2 ^ 52 * 2 ^ 6 ≤ 100 * k)
    (hhigh : 100 * k < 2 ^ 53 * 2 ^ 6) :
    (32 < (m * 2 ^ s : ℕ) - 100 * k ∧ rescaled m = m - 1 / 2 ^ (s - 6)) ∨
      ((m * 2 ^ s : ℕ) - 100 * k ≤ 32 ∧
        (rescaled m = m ∨ rescaled m = m + 1 / 2 ^ (s - 6))) := by
  have hrescaled := rescaled_eq hs' hs hquotient hlow hhigh
  have hback := div_pow_eq hs hj
  rw [abs_le] at hclose
  rcases lt_or_ge 32 ((m * 2 ^ s : ℕ) - 100 * k) with habove | habove
  · have hnearest : roundEven ((100 * k : ℤ) / 2 ^ 6) = 2 * j - 1 :=
      nearest_div (.inl (by rw [abs_of_nonneg] <;> omega))
    refine .inl ⟨habove, ?_⟩
    rw [hrescaled, hnearest, ← hback]
    push_cast
    ring
  · refine .inr ⟨habove, ?_⟩
    rcases lt_or_ge ((m * 2 ^ s : ℕ) - 100 * k) (-32) with hbelow | hbelow
    · have hnearest : roundEven ((100 * k : ℤ) / 2 ^ 6) = 2 * j + 1 :=
        nearest_div (.inl (by rw [abs_of_nonpos] <;> omega))
      right
      rw [hrescaled, hnearest, ← hback]
      push_cast
      ring
    · have hhalf : |100 * k - 2 ^ 6 * (2 * j)| ≤ 32 := by
        rw [abs_le]
        omega
      have hnearest : roundEven ((100 * k : ℤ) / 2 ^ 6) = 2 * j := by
        refine nearest_div ?_
        rcases hhalf.lt_or_eq with hless | htie
        · exact .inl (by omega)
        · exact .inr ⟨by omega, even_two_mul _⟩
      left
      rw [hrescaled, hnearest, ← hback]

/-- Where it is worth 128 units, the scaled payload is the nearest one. -/
theorem rescaled_eq_of_ge (hs : 7 ≤ s) (hs' : s ≤ 59) {k j : ℤ}
    (hj : ((m * 2 ^ s : ℕ) : ℤ) = 2 ^ 7 * j)
    (hquotient : FloatFormat.binary64.round (m / 100) = k / 2 ^ s)
    (hclose : |(m * 2 ^ s : ℕ) - 100 * k| ≤ 48) (hlow : 2 ^ 52 * 2 ^ 7 ≤ 100 * k)
    (hhigh : 100 * k < 2 ^ 53 * 2 ^ 7) : rescaled m = m := by
  have hnearest : roundEven ((100 * k : ℤ) / 2 ^ 7) = j := by
    refine nearest_div (.inl ?_)
    rw [hj, abs_sub_comm] at hclose
    omega
  rw [rescaled_eq hs' hs hquotient hlow hhigh, hnearest, div_pow_eq hs hj]

/-- What a payload comes back as: itself, or one last place above or below; below exactly
when it is lossy. -/
theorem rescaled_cases (hpos : 0 < m) (hle : m ≤ 2 ^ 31) :
    ∃ u : ℕ, 21 ≤ u ∧
      (Lossy m ∧ rescaled m = m - 1 / 2 ^ u ∨
        ¬ Lossy m ∧ (rescaled m = m ∨ rescaled m = m + 1 / 2 ^ u)) := by
  obtain ⟨s, hs, hs', hscales⟩ := exists_scales hpos hle
  obtain ⟨j, hj⟩ : 128 ∣ m * 2 ^ s := by
    refine Dvd.dvd.mul_left ?_ m
    exact pow_dvd_pow 2 (by omega : 7 ≤ s)
  have hcast : ((m * 2 ^ s : ℕ) : ℤ) = 128 * j := by
    rw [hj]
    push_cast
    ring
  obtain ⟨k, hquotient, hclose⟩ :=
    exists_round_quotient (by omega) hscales (hj ▸ Dvd.intro (32 * j) (by ring))
  have hlossy := lossy_iff (n := m) hscales
  rw [Int.natAbs_natCast] at hlossy
  obtain ⟨hlow, hhigh⟩ := hscales
  have hbounds := abs_le.mp hclose
  refine ⟨s - 6, by omega, ?_⟩
  rcases lt_or_ge (100 * k) (2 ^ 59) with hlt | hge
  · obtain ⟨habove, hvalue⟩ | ⟨habove, hvalue⟩ := rescaled_cases_of_lt (j := j) (by omega) hs'
      (by omega) hquotient hclose (by omega) (by omega)
    · -- `k` is the quotient of the scaled payload by 100.
      have hdivision : ((m * 2 ^ s : ℕ) : ℤ) / 100 = k := by omega
      exact .inl ⟨hlossy.mpr (by omega), hvalue⟩
    · have hdivision : ((m * 2 ^ s : ℕ) : ℤ) / 100 = k ∨
          ((m * 2 ^ s : ℕ) : ℤ) / 100 = k - 1 := by
        omega
      exact .inr ⟨fun h => absurd (hlossy.mp h) (by omega), hvalue⟩
  · have hvalue := rescaled_eq_of_ge (j := j) (by omega) hs' (by omega) hquotient hclose
      (by omega) (by omega)
    exact .inr ⟨fun h => absurd (hlossy.mp h) (by omega), .inl hvalue⟩

end Rescaled

/-! ## Payloads -/

instance : DecidablePred Lossy := fun n =>
  inferInstanceAs (Decidable (∃ s < 59, 100 * 2 ^ 52 ≤ n.natAbs * 2 ^ s ∧
    n.natAbs * 2 ^ s < 2 ^ 59 ∧ 32 < n.natAbs * 2 ^ s % 100 ∧ n.natAbs * 2 ^ s % 100 < 50))

/-- What the hundredths `n` come back as. -/
def returned (n : ℤ) : ℤ := if Lossy n then n - n.sign else n

theorem returned_neg (n : ℤ) : returned (-n) = -returned n := by
  unfold returned
  simp only [lossy_neg, Int.sign_neg]
  split_ifs <;> ring

/-- A payload comes back unchanged exactly if it is not lossy. -/
theorem returned_eq_iff {n : ℤ} : returned n = n ↔ ¬ Lossy n := by
  unfold returned
  split_ifs with hlossy
  · have hne : n ≠ 0 := by
      rintro rfl
      exact not_lossy_zero hlossy
    refine iff_of_false (fun h => hne ?_) (not_not.mpr hlossy)
    exact Int.sign_eq_zero_iff_zero.mp (by omega)
  · exact iff_of_true rfl hlossy

/-- It never grows. -/
theorem returned_mem {n : ℤ} (hlow : -2 ^ 31 ≤ n) (hhigh : n < 2 ^ 31) :
    -2 ^ 31 ≤ returned n ∧ returned n < 2 ^ 31 := by
  unfold returned
  rcases lt_trichotomy n 0 with hneg | rfl | hpos
  · rw [Int.sign_eq_neg_one_of_neg hneg]
    split_ifs <;> omega
  · simp
  · rw [Int.sign_eq_one_of_pos hpos]
    split_ifs <;> omega

theorem towardZero_rescaled_of_pos {m : ℕ} (hpos : 0 < m) (hle : m ≤ 2 ^ 31) :
    towardZero (rescaled m) = returned m := by
  have hone : (1 : ℚ) ≤ m := by exact_mod_cast hpos
  obtain ⟨u, hu, hcases⟩ := rescaled_cases hpos hle
  have hfraction : (0 : ℚ) < 1 / 2 ^ u := by positivity
  have hsmall : (1 : ℚ) / 2 ^ u < 1 := by
    rw [div_lt_one (by positivity)]
    exact one_lt_pow₀ (by norm_num) (by omega)
  have hsign : (m : ℤ).sign = 1 := Int.sign_eq_one_of_pos (by exact_mod_cast hpos)
  rcases hcases with ⟨hlossy, hvalue⟩ | ⟨hlossy, hvalue | hvalue⟩
  · rw [returned, if_pos hlossy, hvalue, towardZero_of_nonneg (by linarith), Int.floor_eq_iff,
      hsign]
    push_cast
    constructor <;> linarith
  · rw [returned, if_neg hlossy, hvalue]
    exact_mod_cast towardZero_intCast (K := ℚ) m
  · rw [returned, if_neg hlossy, hvalue, towardZero_of_nonneg (by linarith), Int.floor_eq_iff]
    push_cast
    constructor <;> linarith

/-- Discarding the fraction of the rescaled hundredths. -/
theorem towardZero_rescaled {n : ℤ} (h : |n| ≤ 2 ^ 31) :
    towardZero (rescaled n) = returned n := by
  obtain ⟨m, rfl | rfl⟩ := n.eq_nat_or_neg
  · rcases Nat.eq_zero_or_pos m with rfl | hpos
    · simp [rescaled, returned, not_lossy_zero, towardZero]
    · refine towardZero_rescaled_of_pos hpos ?_
      rw [Nat.abs_cast] at h
      exact_mod_cast h
  · rcases Nat.eq_zero_or_pos m with rfl | hpos
    · simp [rescaled, returned, not_lossy_zero, towardZero]
    · rw [rescaled_neg, towardZero_neg, returned_neg, towardZero_rescaled_of_pos hpos]
      rw [abs_neg, Nat.abs_cast] at h
      exact_mod_cast h

/-- The two operations of the codecs, on a `double`. -/
theorem value_rescaled {n : ℤ} (h : |n| ≤ 2 ^ 31) :
    ((ofInt n : Binary64) / literal 100 * literal 100).value = .fin (rescaled n) := by
  have hn : (ofInt n : Binary64).value = .fin n := Binary64.value_ofInt (h.trans (by norm_num))
  have hhundred : (literal 100 : Binary64).value = .fin 100 := by
    exact_mod_cast Binary64.value_literal_intCast (n := 100) (by norm_num)
  have hn_cast : |(n : ℚ)| ≤ 2 ^ 31 := by exact_mod_cast h
  have hquotient : |(n : ℚ) / 100| ≤ 2 ^ (31 : ℤ) := by
    rw [abs_div, abs_of_pos (by norm_num : (0 : ℚ) < 100), div_le_iff₀ (by norm_num)]
    exact hn_cast.trans (by norm_num)
  have hrounded : |FloatFormat.binary64.round (n / 100)| ≤ 2 ^ (31 : ℤ) :=
    FloatFormat.abs_round_le (by decide) hquotient
  have hproduct : |FloatFormat.binary64.round (n / 100) * 100| ≤ 2 ^ 1023 := by
    rw [abs_mul, abs_of_pos (by norm_num : (0 : ℚ) < 100)]
    calc |FloatFormat.binary64.round (n / 100)| * 100 ≤ 2 ^ (31 : ℤ) * 100 :=
          mul_le_mul_of_nonneg_right hrounded (by norm_num)
      _ ≤ 2 ^ 38 := by norm_num
      _ ≤ 2 ^ 1023 := pow_le_pow_right₀ one_le_two (by norm_num)
  refine Binary64.value_mul (Binary64.value_div hn hhundred (by norm_num) ?_) hhundred hproduct
  calc |(n : ℚ) / 100| ≤ 2 ^ 31 := by exact_mod_cast hquotient
    _ ≤ 2 ^ 1023 := pow_le_pow_right₀ one_le_two (by norm_num)

/-- A word comes back as the word of the returned hundredths. -/
theorem toInt32_rescaled (word : BitVec 32) :
    toInt32 ((ofInt32 word : Binary64) / literal 100 * literal 100) =
      some (BitVec.ofInt 32 (returned word.toInt)) := by
  have hlow := word.le_toInt
  have hhigh := word.toInt_lt
  obtain ⟨hreturned_low, hreturned_high⟩ := returned_mem (n := word.toInt) (by omega) (by omega)
  have habs : |word.toInt| ≤ 2 ^ 31 := by
    rw [abs_le]
    omega
  rw [toInt32_eq_some_iff, ofInt32, Binary64.truncate_eq (value_rescaled habs), truncate_exact,
    towardZero_rescaled habs,
    BitVec.toInt_ofInt_eq_self (by decide) (by omega) (by omega)]

theorem ofInt_returned_eq_iff (word : BitVec 32) :
    BitVec.ofInt 32 (returned word.toInt) = word ↔ ¬ Lossy word.toInt := by
  have hlow := word.le_toInt
  have hhigh := word.toInt_lt
  obtain ⟨hreturned_low, hreturned_high⟩ := returned_mem (n := word.toInt) (by omega) (by omega)
  rw [← returned_eq_iff, ← BitVec.toInt_inj,
    BitVec.toInt_ofInt_eq_self (by decide) (by omega) (by omega)]

/-! ## Hops -/

/-- A frame is passed on `k` times. -/
def hops (forward : CanFrame → Option CanFrame) : ℕ → CanFrame → Option CanFrame
  | 0, frame => some frame
  | k + 1, frame => (forward frame).bind (hops forward k)

/-- A frame survives every number of hops exactly if it survives one. -/
theorem hops_iff {forward : CanFrame → Option CanFrame} {frame : CanFrame} :
    (∀ k, hops forward k frame = some frame) ↔ forward frame = some frame := by
  constructor
  · intro h
    have hone := h 1
    rw [hops] at hone
    obtain ⟨next, hnext, hlast⟩ := Option.bind_eq_some_iff.mp hone
    obtain rfl := Option.some.inj hlast
    exact hnext
  · intro h k
    induction k with
    | zero => rfl
    | succ k ih =>
        rw [hops, h]
        exact ih

section Reencode

variable {R : Type} [Double R] [IntConversion R]

/-- One hop of a command: decode the frame, encode what has been decoded. -/
def JointCommandCodec.reencode (given : JointCommand R) (frame : CanFrame) : Option CanFrame :=
  let (accepted, command) := JointCommandCodec.decode frame given
  if accepted then JointCommandCodec.encode command else none

/-- One hop of a state. -/
def JointStateCodec.reencode (given : JointState R) (frame : CanFrame) : Option CanFrame :=
  let (accepted, state) := JointStateCodec.decode frame given
  if accepted then JointStateCodec.encode state else none

end Reencode

theorem JointCommandCodec.reencode_commandFrame (given : JointCommand Binary64)
    (word : BitVec 32) :
    reencode given (commandFrame word) =
      some (commandFrame (BitVec.ofInt 32 (returned word.toInt))) := by
  rw [reencode, decode_commandFrame]
  exact encode_of_word (toInt32_rescaled word)

theorem JointStateCodec.reencode_stateFrame (given : JointState Binary64)
    (position velocity : BitVec 32) :
    reencode given (stateFrame position velocity) =
      some (stateFrame (BitVec.ofInt 32 (returned position.toInt))
        (BitVec.ofInt 32 (returned velocity.toInt))) := by
  rw [reencode, decode_stateFrame]
  exact encode_of_words (toInt32_rescaled position) (toInt32_rescaled velocity)

theorem JointCommandCodec.commandFrame_inj {left right : BitVec 32} :
    commandFrame left = commandFrame right ↔ left = right := by
  refine ⟨fun h => ?_, congrArg commandFrame⟩
  rw [← word_commandFrame left, h, word_commandFrame]

theorem JointStateCodec.stateFrame_inj {p v p' v' : BitVec 32} :
    stateFrame p v = stateFrame p' v' ↔ p = p' ∧ v = v' := by
  constructor
  · intro h
    obtain ⟨hp, hv⟩ := words_stateFrame p v
    obtain ⟨hp', hv'⟩ := words_stateFrame p' v'
    rw [h] at hp hv
    exact ⟨hp.symm.trans hp', hv.symm.trans hv'⟩
  · rintro ⟨rfl, rfl⟩
    rfl

theorem JointCommandCodec.reencode_eq_iff {frame : CanFrame} (hvalid : Valid frame)
    (hunused : Unused frame) (given : JointCommand Binary64) :
    reencode given frame = some frame ↔ ¬ Lossy (frame.word 0).toInt := by
  rw [eq_commandFrame hvalid hunused, reencode_commandFrame, Option.some_inj, commandFrame_inj,
    word_commandFrame, ofInt_returned_eq_iff]

theorem JointStateCodec.reencode_eq_iff {frame : CanFrame} (hvalid : Valid frame)
    (given : JointState Binary64) :
    reencode given frame = some frame ↔
      ¬ Lossy (frame.word 0).toInt ∧ ¬ Lossy (frame.word 4).toInt := by
  obtain ⟨hposition, hvelocity⟩ := words_stateFrame (frame.word 0) (frame.word 4)
  rw [eq_stateFrame hvalid, reencode_stateFrame, Option.some_inj, stateFrame_inj, hposition,
    hvelocity, ofInt_returned_eq_iff, ofInt_returned_eq_iff]

/-- Which frames are given back by re-encoding what was decoded from them, once and over
any number of hops: those without a lossy payload. -/
theorem reencoding_returns_frame_iff (frame : CanFrame) (command : JointCommand Binary64)
    (state : JointState Binary64) :
    (JointCommandCodec.Valid frame → JointCommandCodec.Unused frame →
      ((JointCommandCodec.reencode command frame = some frame ↔
          ¬ Lossy (frame.word 0).toInt) ∧
        ((∀ k, hops (JointCommandCodec.reencode command) k frame = some frame) ↔
          ¬ Lossy (frame.word 0).toInt))) ∧
    (JointStateCodec.Valid frame →
      ((JointStateCodec.reencode state frame = some frame ↔
          ¬ Lossy (frame.word 0).toInt ∧ ¬ Lossy (frame.word 4).toInt) ∧
        ((∀ k, hops (JointStateCodec.reencode state) k frame = some frame) ↔
          ¬ Lossy (frame.word 0).toInt ∧ ¬ Lossy (frame.word 4).toInt))) := by
  refine ⟨?_, ?_⟩
  · intro hvalid hunused
    have hone := JointCommandCodec.reencode_eq_iff hvalid hunused command
    exact ⟨hone, hops_iff.trans hone⟩
  · intro hvalid
    have hone := JointStateCodec.reencode_eq_iff hvalid state
    exact ⟨hone, hops_iff.trans hone⟩

/-- A command of 0.30 degrees is given back, and so is a state of 0.30 degrees. -/
theorem reencoding_returns_thirty_hundredths :
    JointCommandCodec.reencode (⟨⟨0⟩⟩ : JointCommand Binary64)
        (JointCommandCodec.commandFrame 30) = some (JointCommandCodec.commandFrame 30) ∧
      JointStateCodec.reencode (⟨⟨0⟩, ⟨0⟩⟩ : JointState Binary64)
        (JointStateCodec.stateFrame 30 (-30)) = some (JointStateCodec.stateFrame 30 (-30)) := by
  refine ⟨?_, ?_⟩
  · refine ((reencoding_returns_frame_iff _ _ ⟨⟨0⟩, ⟨0⟩⟩).1 ⟨rfl, rfl⟩
      (JointCommandCodec.unused_commandFrame 30)).1.mpr ?_
    rw [JointCommandCodec.word_commandFrame]
    decide
  · refine ((reencoding_returns_frame_iff _ ⟨⟨0⟩⟩ _).2 ⟨rfl, rfl⟩).1.mpr ?_
    rw [(JointStateCodec.words_stateFrame 30 (-30)).1,
      (JointStateCodec.words_stateFrame 30 (-30)).2]
    decide

/-- A command of 0.29 degrees comes back as 0.28 degrees. -/
theorem twenty_nine_hundredths_lost :
    JointCommandCodec.Valid (JointCommandCodec.commandFrame 29) ∧
      JointCommandCodec.Unused (JointCommandCodec.commandFrame 29) ∧
      JointCommandCodec.reencode (⟨⟨0⟩⟩ : JointCommand Binary64)
        (JointCommandCodec.commandFrame 29) = some (JointCommandCodec.commandFrame 28) ∧
      JointCommandCodec.commandFrame 28 ≠ JointCommandCodec.commandFrame 29 := by
  refine ⟨⟨rfl, rfl⟩, JointCommandCodec.unused_commandFrame 29, ?_, by decide⟩
  have hreturned : BitVec.ofInt 32 (returned (29 : BitVec 32).toInt) = 28 := by decide
  rw [JointCommandCodec.reencode_commandFrame, hreturned]

end RobotController.Communication
