/-
  Communication/CodecLaws.lean --- what survives encoding and decoding.

  In exact arithmetic both codecs do the same to every field: it arrives rounded towards
  zero to a multiple of one hundredth, whatever the other field says.
-/
import RobotController.Communication.Codec
import RobotController.Foundation.Truncation
import Mathlib.Data.Rat.Floor

set_option autoImplicit false

namespace RobotController.Communication

open RobotController.Foundation RobotController.Core

/-! ## Fields -/

/-- The conversion to a word is defined for the field. -/
def Fits (x : ℚ) : Prop := -2 ^ 31 ≤ towardZero (x * 100) ∧ towardZero (x * 100) < 2 ^ 31

instance : DecidablePred Fits := fun _ => inferInstanceAs (Decidable (_ ∧ _))

/-- A field rounded towards zero to a multiple of one hundredth. -/
def hundredths (x : ℚ) : ℚ := towardZero (x * 100) / 100

section Hundredths

variable {x : ℚ}

theorem hundredths_neg (x : ℚ) : hundredths (-x) = -hundredths x := by
  rw [hundredths, neg_mul, towardZero_neg, Int.cast_neg, neg_div]
  rfl

theorem hundredths_mono : Monotone hundredths := by
  intro x y h
  have hscaled : x * 100 ≤ y * 100 := mul_le_mul_of_nonneg_right h (by norm_num)
  have htruncated : (towardZero (x * 100) : ℚ) ≤ towardZero (y * 100) := by
    exact_mod_cast towardZero_mono hscaled
  exact div_le_div_of_nonneg_right htruncated (by norm_num)

/-- Less than one hundredth is lost. -/
theorem abs_hundredths (x : ℚ) : |x| - 1 / 100 < |hundredths x| ∧ |hundredths x| ≤ |x| := by
  obtain ⟨hlow, hhigh⟩ := abs_towardZero (x * 100)
  have hhundred : |(100 : ℚ)| = 100 := abs_of_pos (by norm_num)
  rw [abs_mul, hhundred] at hlow hhigh
  rw [hundredths, abs_div, hhundred]
  constructor
  · rw [lt_div_iff₀ (by norm_num)]
    linarith
  · rw [div_le_iff₀ (by norm_num)]
    exact hhigh

/-- What is left has the sign of the field. -/
theorem hundredths_pos_iff (h : hundredths x ≠ 0) : 0 < hundredths x ↔ 0 < x := by
  have hzero : hundredths 0 = 0 := by simp [hundredths, towardZero]
  constructor
  · intro hpos
    by_contra hx
    have hle := hundredths_mono (not_lt.mp hx)
    rw [hzero] at hle
    exact absurd hpos (not_lt.mpr hle)
  · intro hx
    have hle := hundredths_mono hx.le
    rw [hzero] at hle
    exact lt_of_le_of_ne hle h.symm

/-- A field that fits is sent as the word of its hundredths. -/
theorem Fits.exists_word (h : Fits x) :
    ∃ word : BitVec 32, toInt32 (x * literal 100) = some word ∧
      (ofInt32 word / literal 100 : ℚ) = hundredths x := by
  obtain ⟨word, hword, hn⟩ := exists_toInt32 (truncate_exact (x * 100)) h.1 h.2
  refine ⟨word, hword, ?_⟩
  rw [ofInt32, hn]
  rfl

end Hundredths

/-! ## Frames -/

theorem JointCommandCodec.fst_decode {R : Type} [Double R] [IntConversion R] (frame : CanFrame)
    (given : JointCommand R) : (decode frame given).1 = true ↔ Valid frame := by
  by_cases h : Valid frame
  · rw [decode_of_valid h]
    exact iff_of_true rfl h
  · rw [decode_of_not_valid h]
    exact iff_of_false Bool.false_ne_true h

/-- The state of a joint at rest at zero degrees. -/
theorem JointStateCodec.encode_default :
    encode (JointState.default : JointState ℚ) = some (stateFrame 0 0) :=
  encode_of_words (by simp [JointState.default, toInt32, truncate])
    (by simp [JointState.default, toInt32, truncate])

theorem JointStateCodec.fst_decode {R : Type} [Double R] [IntConversion R] (frame : CanFrame)
    (given : JointState R) : (decode frame given).1 = true ↔ Valid frame := by
  by_cases h : Valid frame
  · rw [eq_stateFrame h, decode_stateFrame]
    exact iff_of_true rfl ⟨rfl, rfl⟩
  · rw [decode_of_not_valid h]
    exact iff_of_false Bool.false_ne_true h

/-- Decoding an encoded value loses less than one resolution step.  Encoding and decoding
succeeds for all fields that fit and takes every field to its hundredths; these are the
field rounded towards zero, monotone and odd in it; no frame is read by both decoders,
and a rejected frame leaves the caller's variable as it is. -/
theorem decode_encode_eq_hundredths :
    (∀ command given : JointCommand ℚ, Fits command.targetPosition.degrees →
      (JointCommandCodec.encode command).map (JointCommandCodec.decode · given) =
        some (true, ⟨⟨hundredths command.targetPosition.degrees⟩⟩)) ∧
    (∀ state given : JointState ℚ,
      Fits state.position.degrees → Fits state.velocity.degreesPerSecond →
        (JointStateCodec.encode state).map (JointStateCodec.decode · given) =
          some (true, ⟨⟨hundredths state.position.degrees⟩,
            ⟨hundredths state.velocity.degreesPerSecond⟩⟩)) ∧
    (∀ x, |x| - 1 / 100 < |hundredths x| ∧ |hundredths x| ≤ |x| ∧
      (∃ n : ℤ, hundredths x = n / 100) ∧
      (hundredths x ≠ 0 → (0 < hundredths x ↔ 0 < x))) ∧
    (∀ x y, x ≤ y → hundredths x ≤ hundredths y) ∧
    (∀ x, hundredths (-x) = -hundredths x) ∧
    (∀ (frame : CanFrame) (command : JointCommand ℚ) (state : JointState ℚ),
      ¬ ((JointCommandCodec.decode frame command).1 = true ∧
        (JointStateCodec.decode frame state).1 = true)) ∧
    (∀ (frame : CanFrame) (command : JointCommand ℚ),
      (JointCommandCodec.decode frame command).1 = false →
        (JointCommandCodec.decode frame command).2 = command) ∧
    ∀ (frame : CanFrame) (state : JointState ℚ),
      (JointStateCodec.decode frame state).1 = false →
        (JointStateCodec.decode frame state).2 = state := by
  refine ⟨?_, ?_, ?_, fun _ _ h => hundredths_mono h, hundredths_neg, ?_, ?_, ?_⟩
  · intro command given hfits
    obtain ⟨word, hword, hvalue⟩ := hfits.exists_word
    rw [JointCommandCodec.encode_of_word hword, Option.map_some,
      JointCommandCodec.decode_commandFrame, hvalue]
  · intro state given hposition hvelocity
    obtain ⟨position, hposition', hposition_value⟩ := hposition.exists_word
    obtain ⟨velocity, hvelocity', hvelocity_value⟩ := hvelocity.exists_word
    rw [JointStateCodec.encode_of_words hposition' hvelocity', Option.map_some,
      JointStateCodec.decode_stateFrame, hposition_value, hvelocity_value]
  · intro x
    obtain ⟨hlow, hhigh⟩ := abs_hundredths x
    exact ⟨hlow, hhigh, ⟨_, rfl⟩, hundredths_pos_iff⟩
  · rintro frame command state ⟨hcommand, hstate⟩
    have hid := ((JointCommandCodec.fst_decode frame command).mp hcommand).1
    rw [((JointStateCodec.fst_decode frame state).mp hstate).1] at hid
    exact absurd hid (by decide)
  · intro frame command hrejected
    have hvalid : ¬ JointCommandCodec.Valid frame := by
      rw [← JointCommandCodec.fst_decode frame command, hrejected]
      exact Bool.false_ne_true
    rw [JointCommandCodec.decode_of_not_valid hvalid]
  · intro frame state hrejected
    have hvalid : ¬ JointStateCodec.Valid frame := by
      rw [← JointStateCodec.fst_decode frame state, hrejected]
      exact Bool.false_ne_true
    rw [JointStateCodec.decode_of_not_valid hvalid]

/-- A velocity of -0.129 arrives as -0.12. -/
theorem decode_encode_negative :
    (JointStateCodec.encode (⟨⟨1 / 8⟩, ⟨-129 / 1000⟩⟩ : JointState ℚ)).map
        (JointStateCodec.decode · ⟨⟨0⟩, ⟨0⟩⟩) =
      some (true, ⟨⟨hundredths (1 / 8)⟩, ⟨hundredths (-129 / 1000)⟩⟩) ∧
    hundredths (-129 / 1000) = -12 / 100 := by
  refine ⟨decode_encode_eq_hundredths.2.1 _ _ ?_ ?_, ?_⟩
  · decide +kernel
  · decide +kernel
  · decide +kernel

end RobotController.Communication
