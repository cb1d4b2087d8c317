/-
  Communication/CanStateReordering.lean --- the state buffer under the memory
  orders it asks for.

  Source: `communication/CanStateBuffer.cpp`.

  The first increment of `publish` is relaxed, so the stores after it may take
  effect before it; the second sequence load of `read` acquires, which orders what
  follows it and not the relaxed loads before it.  Either gap lets a read return
  the position of one publication with the velocity of another.  Without the two
  reorderings the pair is never torn.
-/
import RobotController.Communication.CanStateBuffer
import RobotController.Foundation.SeqlockReordered
import Mathlib.Data.Rat.Defs
import Mathlib.Tactic.NormNum

set_option autoImplicit false

namespace RobotController.Communication

open RobotController.Foundation RobotController.Core

namespace CanStateBuffer

section Orderly

variable {R : Type} [Double R]

theorem memory_eq : (memory : Memory StateCell R) = ⟨0, layout.cells JointState.default⟩ := by
  unfold memory
  congr 1
  funext cell
  cases cell <;> rfl

/-- One writer and one reader of a new buffer, in some order of effects the memory
orders allow. -/
def Reordering (given : JointState R) (s : Reordered StateCell R (JointState R)) : Prop :=
  Reachable (fun start => start = Reordered.initial buffer memory given)
    (Reordered.Step buffer) s

/-- The same, where no store of `publish` takes effect before an earlier increment
of the sequence, no sequence load of `read` before an earlier load of a value, and
fewer than `2 ^ 63` publications begin during an attempt. -/
def OrderlyReordering (given : JointState R) (s : Reordered StateCell R (JointState R)) :
    Prop :=
  Reachable (fun start => start = Reordered.initial buffer memory given)
    (Reordered.OrderlyStep buffer) s

/-- In every orderly run a read that returned true yields the pair of one call of
`publish`, or the initial pair. -/
theorem untorn_of_orderlyReordering {given : JointState R}
    {s : Reordered StateCell R (JointState R)} (h : OrderlyReordering given s) :
    s.Untorn JointState.default := by
  unfold OrderlyReordering at h
  rw [memory_eq] at h
  exact Seqlock.untorn_of_orderly (implements fun _ => 0) rfl rfl rfl h

end Orderly

/-! ## An orderly run -/

/-- The state that is published. -/
def moved : JointState ℚ := ⟨⟨1⟩, ⟨2⟩⟩

theorem OrderlyReordering.step {given : JointState ℚ}
    {s s' : Reordered StateCell ℚ (JointState ℚ)}
    {event : ReorderedEvent StateCell ℚ (JointState ℚ)} (h : OrderlyReordering given s)
    (hstep : Reordered.Step buffer s event s') (horderly : event.Orderly)
    (hsmall : s'.increments + 1 < 2 ^ 64) : OrderlyReordering given s' :=
  Reachable.step h ⟨hstep, horderly, fun _ _ => Nat.lt_add_left _ hsmall⟩

/-- A publication, and a read after it. -/
theorem untorn_of_orderlyReordering_moved :
    ∃ s : Reordered StateCell ℚ (JointState ℚ),
      s.reader.returned = [(true, moved)] ∧ s.published = [moved] ∧
        (moved = JointState.default ∨ moved ∈ s.published) := by
  have hstart : OrderlyReordering JointState.default
      (Reordered.initial buffer memory (JointState.default : JointState ℚ)) :=
    Reachable.init rfl
  have hcalled := hstart.step (.publish moved rfl) trivial (by decide)
  have hwriter := (((hcalled.step (.issueWriter .fetchAdd) trivial (by decide)).step
    (.issueWriter .store) trivial (by decide)).step (.issueWriter .store) trivial
    (by decide)).step (.issueWriter .fetchAdd) trivial (by decide)
  have hstored := ((hwriter.step (.writerNext rfl .fetchAdd) (.writerNext _)
    (by decide)).step (.writerNext rfl .store) (.writerNext _) (by decide)).step
    (.writerNext rfl .store) (.writerNext _) (by decide)
  have hpublished := hstored.step (.writerNext rfl .fetchAdd) (.writerNext _) (by decide)
  have hopen := (hpublished.step (.issueReader (.loadSequence 2)) trivial (by decide)).step
    (.readerNext rfl (.loadSequence_of_eq rfl)) (.readerNext _) (by decide)
  have hissued := ((hopen.step (.issueReader (.load 1)) trivial (by decide)).step
    (.issueReader (.load 2)) trivial (by decide)).step (.issueReader (.loadSequence 2)) trivial
    (by decide)
  have hloaded := (hissued.step (.readerNext rfl (.load_of_eq rfl)) (.readerNext _)
    (by decide)).step (.readerNext rfl (.load_of_eq rfl)) (.readerNext _) (by decide)
  have hclosed := hloaded.step (.readerNext rfl (.loadSequence_of_eq rfl))
    (.readerNext _) (by decide)
  refine ⟨_, rfl, rfl, untorn_of_orderlyReordering hclosed 0 moved rfl ?_⟩
  exact fun entry hentry => absurd hentry List.not_mem_nil

/-! ## A torn pair -/

/-- The loads of the values, while they are pending. -/
def valueLoads : List (Nat × Access StateCell ℚ) :=
  [(0, .load .positionDegrees .relaxed 0), (0, .load .velocityDegreesPerSecond .relaxed 2)]

/-- The closing sequence load may take effect before the loads of the values. -/
theorem closing_overtakes : ∀ entry ∈ valueLoads,
    (Access.loadSequence .acquire 0).MayOvertake entry.2 := by
  simp [valueLoads, Access.MayOvertake, Access.variable_, Access.releases, Access.acquires,
    MemoryOrder.acquires]

/-- The reader's second sequence load takes effect before its loads of the values;
the position is loaded before a publication and the velocity after it. -/
theorem torn_pair :
    ∃ s : Reordered StateCell ℚ (JointState ℚ), Reordering JointState.default s ∧
      s.published = [moved] ∧ s.reader.pending = [] ∧
      s.reader.returned = [(true, ⟨⟨0⟩, ⟨2⟩⟩)] := by
  have hstart : Reordering JointState.default
      (Reordered.initial buffer memory (JointState.default : JointState ℚ)) :=
    Reachable.init rfl
  -- the reader opens an attempt and issues the rest of it
  have hopen := (hstart.step (.issueReader (.loadSequence 0))).step
    (.readerNext rfl (.loadSequence_of_eq rfl))
  have hissued := ((hopen.step (.issueReader (.load 0))).step (.issueReader (.load 2))).step
    (.issueReader (.loadSequence 0))
  -- the closing load overtakes both loads of the values
  have hclosed := hissued.step (.readerEffect rfl closing_overtakes (.loadSequence_of_eq rfl))
  have hposition := hclosed.step (.readerNext rfl (.load_of_eq rfl))
  -- a whole publication takes effect before the velocity is loaded
  have hissued := (((hposition.step (.publish moved rfl)).step (.issueWriter .fetchAdd)).step
    (.issueWriter .store)).step (.issueWriter .store)
  have hmarked := (hissued.step (.issueWriter .fetchAdd)).step (.writerNext rfl .fetchAdd)
  have hstored := (hmarked.step (.writerNext rfl .store)).step (.writerNext rfl .store)
  have hpublished := hstored.step (.writerNext rfl .fetchAdd)
  exact ⟨_, hpublished.step (.readerNext rfl (.load_of_eq rfl)), rfl, rfl, rfl⟩

/-- Under the orders the code asks for, reads can be torn. -/
theorem not_untorn :
    ¬ ∀ (given : JointState ℚ) (s : Reordered StateCell ℚ (JointState ℚ)),
      Reordering given s → s.Untorn JointState.default := by
  intro h
  obtain ⟨s, hreached, hpublished, hpending, hreturned⟩ := torn_pair
  have hsettled : s.reader.Settled 0 := by simp [Thread.Settled, hpending]
  have hpair := h _ s hreached 0 ⟨⟨0⟩, ⟨2⟩⟩ (by rw [hreturned]; rfl) hsettled
  simp [hpublished, JointState.default, moved] at hpair

end CanStateBuffer

end RobotController.Communication
