/-
  Synchronization/SnapshotBuffer.lean --- the buffer that carries whole robot
  states from the control thread to its readers.

  Sources: `synchronization/SnapshotBuffer.hpp`, `synchronization/SnapshotBuffer.cpp`.

  Both functions are translated access by access; that they are a sequence lock
  over twelve cells is `SnapshotBuffer.implements`, and everything known about the
  buffer follows from it.
-/
import RobotController.Core.JointTypes
import RobotController.Foundation.SeqlockProgram
import Mathlib.Data.List.FinRange
import Mathlib.Data.Rat.Defs

set_option autoImplicit false

namespace RobotController.Synchronization

open RobotController.Foundation RobotController.Core

/-- The elements of `positions_` and of `velocities_`. -/
inductive SnapshotCell where
  | position (i : Fin jointCount)
  | velocity (i : Fin jointCount)
  deriving DecidableEq, Repr

namespace SnapshotBuffer

variable {R : Type}

/-! ## The two functions -/

/-- The loop of `publish`. -/
def storeJoints (state : RobotState R) :
    List (Fin jointCount) → Program SnapshotCell R Unit
  | [] => pure ()
  | i :: rest => do
      Program.put (.position i) (state i).position.degrees .seqCst
      Program.put (.velocity i) (state i).velocity.degreesPerSecond .seqCst
      storeJoints state rest

/-- `SnapshotBuffer::publish`. -/
def publish (state : RobotState R) : Program SnapshotCell R Unit := do
  Program.addOne .seqCst
  storeJoints state (List.finRange jointCount)
  Program.addOne .seqCst

/-- `candidate[i].position = position;` -/
def setPosition (candidate : RobotState R) (i : Fin jointCount) (position : Angle R) :
    RobotState R :=
  Function.update candidate i { candidate i with position := position }

/-- `candidate[i].velocity = velocity;` -/
def setVelocity (candidate : RobotState R) (i : Fin jointCount)
    (velocity : AngularVelocity R) : RobotState R :=
  Function.update candidate i { candidate i with velocity := velocity }

/-- The inner loop of `read`. -/
def loadJoints : List (Fin jointCount) → RobotState R →
    Program SnapshotCell R (RobotState R)
  | [], candidate => pure candidate
  | i :: rest, candidate => do
      let position ← Program.get (.position i) .seqCst
      let candidate := setPosition candidate i ⟨position⟩
      let velocity ← Program.get (.velocity i) .seqCst
      loadJoints rest (setVelocity candidate i ⟨velocity⟩)

/-- `max_read_attempts_`. -/
def maxReadAttempts : Nat := 3

variable [Double R]

/-- The attempts of `read`, `state` being the caller's variable. -/
def readAttempts (state : RobotState R) : Nat →
    Program SnapshotCell R (Bool × RobotState R)
  | 0 => pure (false, state)
  | left + 1 => do
      let before ← Program.getSequence .seqCst
      if before &&& 1 ≠ 0 then
        readAttempts state left
      else
        let candidate ← loadJoints (List.finRange jointCount) RobotState.default
        let after ← Program.getSequence .seqCst
        if before = after then
          pure (true, candidate)
        else
          readAttempts state left

/-- `SnapshotBuffer::read`. -/
def read (state : RobotState R) : Program SnapshotCell R (Bool × RobotState R) :=
  readAttempts state maxReadAttempts

/-- The buffer, as its clients see it. -/
def buffer : Buffer SnapshotCell R (RobotState R) := ⟨publish, read⟩

/-- A new buffer: `sequence_{0}`, `positions_{}`, `velocities_{}`. -/
def memory : Memory SnapshotCell R := ⟨0, fun _ => 0⟩

end SnapshotBuffer

/-! ## The sequence lock behind them -/

namespace SnapshotBuffer

variable {R : Type}

/-- The twelve values of a state. -/
def cells (state : RobotState R) : SnapshotCell → R
  | .position i => (state i).position.degrees
  | .velocity i => (state i).velocity.degreesPerSecond

/-- The cells of the listed joints, in the order the loops visit them. -/
def cellsOf (joints : List (Fin jointCount)) : List SnapshotCell :=
  joints.flatMap fun i => [.position i, .velocity i]

theorem cellsOf_cons (i : Fin jointCount) (rest : List (Fin jointCount)) :
    cellsOf (i :: rest) = .position i :: .velocity i :: cellsOf rest := rfl

/-- The layout of a robot state. -/
def layout : Layout SnapshotCell R (RobotState R) where
  cells := cells
  value got := fun i => ⟨⟨got (.position i)⟩, ⟨got (.velocity i)⟩⟩
  value_cells := fun _ => rfl
  order := cellsOf (List.finRange jointCount)
  nodup_order := by decide
  mem_order := by
    intro cell
    simp only [cellsOf, List.mem_flatMap, List.mem_finRange, true_and]
    cases cell with
    | position i => exact ⟨i, by simp⟩
    | velocity i => exact ⟨i, by simp⟩

/-- Every access asks for `memory_order_seq_cst`. -/
def orders : Seqlock.Orders := ⟨.seqCst, .seqCst, .seqCst, .seqCst, .seqCst, .seqCst⟩

theorem cells_setPosition (candidate : RobotState R) (i : Fin jointCount)
    (position : Angle R) :
    cells (setPosition candidate i position) =
      Function.update (cells candidate) (.position i) position.degrees := by
  funext cell
  cases cell with
  | position j => rcases eq_or_ne j i with rfl | hne <;> simp_all [cells, setPosition]
  | velocity j => rcases eq_or_ne j i with rfl | hne <;> simp_all [cells, setPosition]

theorem cells_setVelocity (candidate : RobotState R) (i : Fin jointCount)
    (velocity : AngularVelocity R) :
    cells (setVelocity candidate i velocity) =
      Function.update (cells candidate) (.velocity i) velocity.degreesPerSecond := by
  funext cell
  cases cell with
  | position j => rcases eq_or_ne j i with rfl | hne <;> simp_all [cells, setVelocity]
  | velocity j => rcases eq_or_ne j i with rfl | hne <;> simp_all [cells, setVelocity]

/-- The loop of `publish` stores the cells in their order. -/
theorem storeJoints_eq (state : RobotState R) : ∀ joints : List (Fin jointCount),
    (storeJoints state joints).bind (fun _ => Program.addOne .seqCst) =
      Seqlock.storeCells layout orders state (cellsOf joints) := by
  intro joints
  induction joints with
  | nil => rfl
  | cons i rest ih =>
      rw [cellsOf_cons]
      simp only [storeJoints, Program.bind_eq, Program.put_bind, Program.bind, ih]
      rfl

/-- The inner loop of `read` loads the cells in their order. -/
theorem loadJoints_eq (before : BitVec 64) (again : Program SnapshotCell R (Bool × RobotState R)) :
    ∀ (joints : List (Fin jointCount)) (candidate : RobotState R),
      ((loadJoints joints candidate).bind fun candidate =>
        .loadSequence .seqCst fun after =>
          if before = after then .done (true, candidate) else again) =
        Seqlock.loadCells layout orders before again (cellsOf joints) (cells candidate) := by
  intro joints
  induction joints with
  | nil =>
      intro candidate
      rfl
  | cons i rest ih =>
      intro candidate
      rw [cellsOf_cons]
      simp only [loadJoints, Program.bind_eq, Program.get_bind, Program.bind, ih,
        cells_setVelocity, cells_setPosition]
      rfl

variable [Double R]

theorem readAttempts_eq (state : RobotState R) : ∀ left : Nat,
    readAttempts state left =
      Seqlock.attempts layout orders (cells RobotState.default) state left := by
  intro left
  induction left with
  | zero => rfl
  | succ left ih =>
      simp only [readAttempts, Seqlock.attempts, Program.bind_eq, Program.getSequence_bind,
        Program.pure_eq, ne_eq, ite_not, loadJoints_eq, ih]
      rfl

/-- The buffer is a sequence lock. -/
theorem implements :
    Seqlock.Implements layout orders (cells RobotState.default) 2
      (buffer : Buffer SnapshotCell R (RobotState R)) where
  publish := by
    intro state
    simp only [buffer, publish, Program.bind_eq, Program.addOne_bind, storeJoints_eq]
    rfl
  read := fun state => readAttempts_eq state maxReadAttempts

/-! ## Clients -/

/-- A new buffer with its clients. -/
def initial {T : Type} : SharedBuffer SnapshotCell R (RobotState R) T :=
  SharedBuffer.initial memory RobotState.default

theorem initial_eq {T : Type} :
    (initial : SharedBuffer SnapshotCell R (RobotState R) T) =
      SharedBuffer.initial ⟨0, layout.cells RobotState.default⟩ RobotState.default := by
  unfold initial memory
  congr 2
  funext cell
  cases cell <;> rfl

/-- The states of the buffer and its clients that some interleaving of their
accesses reaches, fewer than `2 ^ 63` publications overlapping any attempt. -/
def Reached {T : Type} [DecidableEq T] (s : SharedBuffer SnapshotCell R (RobotState R) T) :
    Prop :=
  Reachable (fun start => start = initial)
    (Within SharedBuffer.NoWrap (SharedBuffer.Step buffer)) s

theorem Reached.refines {T : Type} [DecidableEq T]
    {s : SharedBuffer SnapshotCell R (RobotState R) T} (h : Reached s) :
    Seqlock.Refines layout orders (cells RobotState.default) s := by
  unfold Reached at h
  rw [initial_eq] at h
  exact Seqlock.Refines.of_reachable implements h

/-- No torn and no stale state.  A read that returned true yields one published
state, or the initial one, at least as recent as the last publication completed
before it began; one that returned false leaves its caller's state untouched; and
one during which the writer was idle returned true, with the latest published
state. -/
theorem read_consistent {T : Type} [DecidableEq T]
    {s : SharedBuffer SnapshotCell R (RobotState R) T} (h : Reached s) {t : T}
    {call : Call SnapshotCell R (RobotState R)} (ht : s.calls t = some call) {ok : Bool}
    {state : RobotState R} (hresult : call.result = some (ok, state)) :
    (ok = true → ∃ n, call.since ≤ n ∧ n ≤ s.completed ∧ s.history[n]? = some state) ∧
      (ok = false → state = call.given) ∧
      (call.quiet = true → ok = true ∧ s.history.getLast? = some state) := by
  have href := h.refines
  refine ⟨?_, ?_, fun hquiet => ?_⟩
  · rintro rfl
    exact href.of_true ht hresult
  · rintro rfl
    exact href.of_false ht hresult
  · obtain ⟨hok, hlatest, hlength⟩ := href.of_quiet ht hquiet hresult
    refine ⟨hok, ?_⟩
    rw [List.getLast?_eq_getElem?, hlength]
    exact hlatest

/-! ## One publication and one read -/

section OnePublication

/-- A state whose twelve values are not those of the initial one. -/
def posed : RobotState ℚ := fun i => ⟨⟨(i.val : ℚ) + 1⟩, ⟨2⟩⟩

/-- A publication and, after it, a read. -/
def publishThenRead : List (BufferEvent (RobotState ℚ) Unit) :=
  .publish posed :: List.replicate 14 .write ++
    .read () RobotState.default :: List.replicate 14 (.access ())

theorem read_consistent_publishThenRead :
    ∃ s : SharedBuffer SnapshotCell ℚ (RobotState ℚ) Unit, Reached s ∧
      ∃ call, s.calls () = some call ∧ call.result = some (true, posed) ∧
        ∃ n, call.since ≤ n ∧ n ≤ s.completed ∧ s.history[n]? = some posed := by
  have hrun : ∃ s : SharedBuffer SnapshotCell ℚ (RobotState ℚ) Unit,
      publishThenRead.foldlM (SharedBuffer.next buffer) initial = some s ∧
        s.history = [RobotState.default, posed] ∧ s.completed = 1 ∧
        ∃ call, s.calls () = some call ∧ call.since = 1 ∧
          ∃ state, call.result = some (true, state) :=
    ⟨_, rfl, rfl, rfl, _, rfl, rfl, _, rfl⟩
  obtain ⟨s, hs, hhistory, hcompleted, call, ht, hsince, state, hresult⟩ := hrun
  have hreached : Reached s :=
    ⟨initial, _, rfl, SharedBuffer.execution_of_schedule (by decide) hs⟩
  obtain ⟨n, hn, hle, hstate⟩ := (read_consistent hreached ht hresult).1 rfl
  obtain rfl : n = 1 := by omega
  obtain rfl : posed = state := by simpa [hhistory] using hstate
  exact ⟨s, hreached, call, ht, hresult, 1, hn, hle, hstate⟩

end OnePublication

end SnapshotBuffer

end RobotController.Synchronization
