/-
  Communication/Codec.lean --- CAN frames and what they carry.

  Sources: `communication/CanFrame.hpp`, `communication/CanFrame.cpp`,
  `communication/JointCommandCodec.cpp`, `communication/JointStateCodec.cpp`.

  An angle or a velocity travels as a signed 32-bit number of hundredths, least
  significant byte first.  The two kinds of frames are told apart by their
  identifier, so a state frame is never read as a command.
-/
import RobotController.Core.JointTypes
import Mathlib.Tactic.IntervalCases

set_option autoImplicit false

namespace RobotController.Communication

open RobotController.Foundation RobotController.Core

/-! ## Frames -/

/-- `class CanFrame`. -/
structure CanFrame where
  id : BitVec 32
  length : BitVec 8
  data : Vector (BitVec 8) 8
  deriving DecidableEq, Repr

namespace CanFrame

/-- `CanFrame frame;` -/
def new : CanFrame := ⟨0, 0, Vector.replicate 8 0⟩

def setId (frame : CanFrame) (id : BitVec 32) : CanFrame := { frame with id := id }

def setLength (frame : CanFrame) (length : BitVec 8) : CanFrame := { frame with length := length }

/-- `frame.data()[offset] = value & 0xFF; …; frame.data()[offset + 3] = (value >> 24) & 0xFF;` -/
def putWord (frame : CanFrame) (offset : Nat) (value : BitVec 32)
    (h : offset + 3 < 8 := by decide) : CanFrame :=
  { frame with
    data := (((frame.data.set offset ((value &&& 0xFF).setWidth 8)).set (offset + 1)
      (((value >>> 8) &&& 0xFF).setWidth 8)).set (offset + 2)
      (((value >>> 16) &&& 0xFF).setWidth 8)).set (offset + 3)
      (((value >>> 24) &&& 0xFF).setWidth 8) }

/-- `data()[offset] | data()[offset + 1] << 8 | data()[offset + 2] << 16 |
data()[offset + 3] << 24`. -/
def word (frame : CanFrame) (offset : Nat) (h : offset + 3 < 8 := by decide) : BitVec 32 :=
  frame.data[offset].setWidth 32 ||| (frame.data[offset + 1].setWidth 32 <<< 8) |||
    (frame.data[offset + 2].setWidth 32 <<< 16) ||| (frame.data[offset + 3].setWidth 32 <<< 24)

@[simp] theorem id_putWord (frame : CanFrame) (offset : Nat) (value : BitVec 32)
    (h : offset + 3 < 8) : (frame.putWord offset value h).id = frame.id := rfl

@[simp] theorem length_putWord (frame : CanFrame) (offset : Nat) (value : BitVec 32)
    (h : offset + 3 < 8) : (frame.putWord offset value h).length = frame.length := rfl

/-- A word is the combination of its bytes. -/
theorem bytes_or (value : BitVec 32) :
    ((value &&& 0xFF).setWidth 8).setWidth 32 |||
      ((((value >>> 8) &&& 0xFF).setWidth 8).setWidth 32 <<< 8) |||
      ((((value >>> 16) &&& 0xFF).setWidth 8).setWidth 32 <<< 16) |||
      ((((value >>> 24) &&& 0xFF).setWidth 8).setWidth 32 <<< 24) = value := by
  ext i hi
  interval_cases i <;> simp

/-- What has been put is read back. -/
theorem word_putWord (frame : CanFrame) (offset : Nat) (value : BitVec 32)
    (h : offset + 3 < 8) : (frame.putWord offset value h).word offset h = value := by
  have hbytes := bytes_or value
  simpa [word, putWord, Vector.getElem_set] using hbytes

/-- A word put elsewhere does not disturb. -/
theorem word_putWord_of_ne (frame : CanFrame) {offset other : Nat} (value : BitVec 32)
    (h : offset + 3 < 8) (hother : other + 3 < 8)
    (hne : other + 3 < offset ∨ offset + 3 < other) :
    (frame.putWord offset value h).word other hother = frame.word other hother := by
  simp (disch := omega) only [word, putWord, Vector.getElem_set_ne]

theorem eq_of_fields {left right : CanFrame} (hid : left.id = right.id)
    (hlength : left.length = right.length) (hdata : left.data = right.data) : left = right := by
  cases left
  cases right
  rw [CanFrame.mk.injEq]
  exact ⟨hid, hlength, hdata⟩

/-- The bytes of a word that was put together from bytes. -/
theorem byte_or (b₀ b₁ b₂ b₃ : BitVec 8) :
    let value := b₀.setWidth 32 ||| (b₁.setWidth 32 <<< 8) ||| (b₂.setWidth 32 <<< 16) |||
      (b₃.setWidth 32 <<< 24)
    (value &&& 0xFF).setWidth 8 = b₀ ∧ ((value >>> 8) &&& 0xFF).setWidth 8 = b₁ ∧
      ((value >>> 16) &&& 0xFF).setWidth 8 = b₂ ∧ ((value >>> 24) &&& 0xFF).setWidth 8 = b₃ := by
  refine ⟨?_, ?_, ?_, ?_⟩ <;>
  · ext i hi
    interval_cases i <;> simp

/-- Putting a word that has been read puts the bytes it was read from. -/
theorem getElem_putWord_word (frame target : CanFrame) (offset : Nat) (h : offset + 3 < 8)
    {i : Nat} (hi : i < 8) (hlow : offset ≤ i) (hhigh : i ≤ offset + 3) :
    (target.putWord offset (frame.word offset h) h).data[i] = frame.data[i] := by
  obtain ⟨h₀, h₁, h₂, h₃⟩ := byte_or frame.data[offset] frame.data[offset + 1]
    frame.data[offset + 2] frame.data[offset + 3]
  obtain rfl | rfl | rfl | rfl :
      i = offset ∨ i = offset + 1 ∨ i = offset + 2 ∨ i = offset + 3 := by
    omega
  · simpa [putWord, word, Vector.getElem_set] using h₀
  · simpa [putWord, word, Vector.getElem_set] using h₁
  · simpa [putWord, word, Vector.getElem_set] using h₂
  · simpa [putWord, word, Vector.getElem_set] using h₃

/-- The bytes elsewhere stay. -/
theorem getElem_putWord_of_ne (frame : CanFrame) {offset i : Nat} (value : BitVec 32)
    (h : offset + 3 < 8) (hi : i < 8) (hne : i < offset ∨ offset + 3 < i) :
    (frame.putWord offset value h).data[i] = frame.data[i] := by
  simp (disch := omega) only [putWord, Vector.getElem_set_ne]

end CanFrame

variable {R : Type} [Double R] [IntConversion R]

/-! ## Commands -/

namespace JointCommandCodec

/-- `command_id`. -/
def commandId : BitVec 32 := 0x100

/-- `JointCommandCodec::encode`; nothing when the conversion is undefined. -/
def encode (command : JointCommand R) : Option CanFrame := do
  let frame := (CanFrame.new.setId commandId).setLength 4
  let centidegrees ← toInt32 (command.targetPosition.degrees * literal 100)
  return frame.putWord 0 centidegrees

/-- `JointCommandCodec::decode`, `command` being the caller's variable. -/
def decode (frame : CanFrame) (command : JointCommand R) : Bool × JointCommand R :=
  if frame.id ≠ commandId then
    (false, command)
  else if frame.length ≠ 4 then
    (false, command)
  else
    let centidegrees := frame.word 0
    (true, { command with targetPosition := ⟨ofInt32 centidegrees / literal 100⟩ })

/-- The valid command frames. -/
def Valid (frame : CanFrame) : Prop := frame.id = 0x100 ∧ frame.length = 4

instance : DecidablePred Valid := fun _ => inferInstanceAs (Decidable (_ ∧ _))

/-- What a valid command frame says. -/
def decoded (frame : CanFrame) : JointCommand R := ⟨⟨ofInt32 (frame.word 0) / literal 100⟩⟩

theorem decode_of_valid {frame : CanFrame} (h : Valid frame) (command : JointCommand R) :
    decode frame command = (true, decoded frame) := by
  have hid : ¬ frame.id ≠ commandId := not_not.mpr h.1
  have hlength : ¬ frame.length ≠ 4 := not_not.mpr h.2
  rw [decode, if_neg hid, if_neg hlength]
  rfl

theorem decode_of_not_valid {frame : CanFrame} (h : ¬ Valid frame) (command : JointCommand R) :
    decode frame command = (false, command) := by
  unfold decode
  split
  · rfl
  next hid =>
    rw [if_pos]
    exact fun hlength => h ⟨not_not.mp hid, hlength⟩

/-- The command frame with a word. -/
def commandFrame (centidegrees : BitVec 32) : CanFrame :=
  ((CanFrame.new.setId commandId).setLength 4).putWord 0 centidegrees

theorem encode_of_word {command : JointCommand R} {centidegrees : BitVec 32}
    (h : toInt32 (command.targetPosition.degrees * literal 100) = some centidegrees) :
    encode command = some (commandFrame centidegrees) := by
  rw [encode, h]
  rfl

theorem word_commandFrame (centidegrees : BitVec 32) :
    (commandFrame centidegrees).word 0 = centidegrees :=
  CanFrame.word_putWord _ 0 centidegrees _

/-- A command frame is decoded to its word. -/
theorem decode_commandFrame (centidegrees : BitVec 32) (given : JointCommand R) :
    decode (commandFrame centidegrees) given =
      (true, ⟨⟨ofInt32 centidegrees / literal 100⟩⟩) := by
  have hvalid : Valid (commandFrame centidegrees) := ⟨rfl, rfl⟩
  rw [decode_of_valid hvalid, decoded, word_commandFrame]

/-- The bytes a command does not use are zero. -/
def Unused (frame : CanFrame) : Prop := ∀ i (hi : i < 8), 4 ≤ i → frame.data[i] = 0

theorem unused_commandFrame (centidegrees : BitVec 32) : Unused (commandFrame centidegrees) := by
  intro i hi hge
  rw [commandFrame, CanFrame.getElem_putWord_of_ne _ _ _ hi (by omega)]
  simp [CanFrame.new, CanFrame.setId, CanFrame.setLength]

/-- A valid command frame is the frame of its word. -/
theorem eq_commandFrame {frame : CanFrame} (h : Valid frame) (hunused : Unused frame) :
    frame = commandFrame (frame.word 0) := by
  have hdata : frame.data = (commandFrame (frame.word 0)).data := by
    refine Vector.ext fun i hi => ?_
    rcases Nat.lt_or_ge i 4 with hlt | hge
    · exact (frame.getElem_putWord_word _ 0 (by decide) hi (by omega) (by omega)).symm
    · exact (hunused i hi hge).trans (unused_commandFrame _ i hi hge).symm
  exact CanFrame.eq_of_fields h.1 h.2 hdata

end JointCommandCodec

/-! ## States -/

namespace JointStateCodec

/-- `state_id`. -/
def stateId : BitVec 32 := 0x200

/-- `JointStateCodec::encode`; nothing when a conversion is undefined. -/
def encode (state : JointState R) : Option CanFrame := do
  let frame := (CanFrame.new.setId stateId).setLength 8
  let position ← toInt32 (state.position.degrees * literal 100)
  let velocity ← toInt32 (state.velocity.degreesPerSecond * literal 100)
  return (frame.putWord 0 position).putWord 4 velocity

/-- `JointStateCodec::decode`, `state` being the caller's variable. -/
def decode (frame : CanFrame) (state : JointState R) : Bool × JointState R :=
  if frame.id ≠ stateId then
    (false, state)
  else if frame.length ≠ 8 then
    (false, state)
  else
    let position := frame.word 0
    let velocity := frame.word 4
    (true, { state with
      position := ⟨ofInt32 position / literal 100⟩
      velocity := ⟨ofInt32 velocity / literal 100⟩ })

/-- The valid state frames. -/
def Valid (frame : CanFrame) : Prop := frame.id = 0x200 ∧ frame.length = 8

theorem decode_of_not_valid {frame : CanFrame} (h : ¬ Valid frame) (state : JointState R) :
    decode frame state = (false, state) := by
  unfold decode
  split
  · rfl
  next hid =>
    rw [if_pos]
    exact fun hlength => h ⟨not_not.mp hid, hlength⟩

theorem id_of_encode {state : JointState R} {frame : CanFrame} (h : encode state = some frame) :
    frame.id = stateId := by
  obtain ⟨position, -, h⟩ := Option.bind_eq_some_iff.mp h
  obtain ⟨velocity, -, h⟩ := Option.bind_eq_some_iff.mp h
  obtain rfl := Option.some.inj h
  rfl

/-- The state frame with two words. -/
def stateFrame (position velocity : BitVec 32) : CanFrame :=
  (((CanFrame.new.setId stateId).setLength 8).putWord 0 position).putWord 4 velocity

theorem encode_of_words {state : JointState R} {position velocity : BitVec 32}
    (hposition : toInt32 (state.position.degrees * literal 100) = some position)
    (hvelocity : toInt32 (state.velocity.degreesPerSecond * literal 100) = some velocity) :
    encode state = some (stateFrame position velocity) := by
  rw [encode, hposition, hvelocity]
  rfl

theorem words_stateFrame (position velocity : BitVec 32) :
    (stateFrame position velocity).word 0 = position ∧
      (stateFrame position velocity).word 4 = velocity := by
  refine ⟨?_, CanFrame.word_putWord _ 4 velocity _⟩
  rw [stateFrame, CanFrame.word_putWord_of_ne _ velocity _ _ (by decide)]
  exact CanFrame.word_putWord _ 0 position _

/-- A state frame is decoded to its two words. -/
theorem decode_stateFrame (position velocity : BitVec 32) (given : JointState R) :
    decode (stateFrame position velocity) given =
      (true, ⟨⟨ofInt32 position / literal 100⟩, ⟨ofInt32 velocity / literal 100⟩⟩) := by
  have hid : ¬ (stateFrame position velocity).id ≠ stateId := not_not.mpr rfl
  have hlength : ¬ (stateFrame position velocity).length ≠ 8 := not_not.mpr rfl
  obtain ⟨hposition, hvelocity⟩ := words_stateFrame position velocity
  simp only [decode, if_neg hid, if_neg hlength, hposition, hvelocity]

/-- A valid state frame is the frame of its words. -/
theorem eq_stateFrame {frame : CanFrame} (h : Valid frame) :
    frame = stateFrame (frame.word 0) (frame.word 4) := by
  have hdata : frame.data = (stateFrame (frame.word 0) (frame.word 4)).data := by
    refine Vector.ext fun i hi => ?_
    rcases Nat.lt_or_ge i 4 with hlt | hge
    · rw [stateFrame, CanFrame.getElem_putWord_of_ne _ _ _ hi (by omega)]
      exact (frame.getElem_putWord_word _ 0 (by decide) hi (by omega) (by omega)).symm
    · exact (frame.getElem_putWord_word _ 4 (by decide) hi (by omega) (by omega)).symm
  exact CanFrame.eq_of_fields h.1 h.2 hdata

/-- A state frame is not a command frame. -/
theorem not_valid_of_encode {state : JointState R} {frame : CanFrame}
    (h : encode state = some frame) : ¬ JointCommandCodec.Valid frame := by
  intro hvalid
  have hid : stateId = 0x100 := (id_of_encode h).symm.trans hvalid.1
  exact absurd hid (by decide)

end JointStateCodec

end RobotController.Communication
