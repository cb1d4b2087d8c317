/-
  Foundation/WaitFree.lean --- code that waits for nobody.

  A program that returns after a bounded number of its own accesses, whatever these
  yield, returns however the accesses of other threads fall between them.  A sequence
  lock with a bounded number of attempts is of this kind on both of its sides.
-/
import RobotController.Foundation.SerialReads

set_option autoImplicit false

namespace RobotController.Foundation

/-! ## Bounded programs -/

namespace Program

variable {ι V α : Type}

/-- At most so many accesses are left, whatever they yield. -/
inductive Bounded : Program ι V α → Nat → Prop where
  | done (result : α) (n : Nat) : Bounded (.done result) n
  | fetchAdd {order : MemoryOrder} {next : Program ι V α} {n : Nat} :
      Bounded next n → Bounded (.fetchAdd order next) (n + 1)
  | loadSequence {order : MemoryOrder} {next : BitVec 64 → Program ι V α} {n : Nat} :
      (∀ value, Bounded (next value) n) → Bounded (.loadSequence order next) (n + 1)
  | store {cell : ι} {value : V} {order : MemoryOrder} {next : Program ι V α} {n : Nat} :
      Bounded next n → Bounded (.store cell value order next) (n + 1)
  | load {cell : ι} {order : MemoryOrder} {next : V → Program ι V α} {n : Nat} :
      (∀ value, Bounded (next value) n) → Bounded (.load cell order next) (n + 1)

variable {program next : Program ι V α} {memory memory' : Memory ι V} {n m : Nat}

theorem Bounded.mono (h : program.Bounded n) (hle : n ≤ m) : program.Bounded m := by
  induction h generalizing m with
  | done result n => exact .done result m
  | fetchAdd _ ih =>
      obtain ⟨m, rfl⟩ := Nat.exists_eq_add_of_le' (Nat.le_of_add_left_le hle)
      exact .fetchAdd (ih (Nat.le_of_add_le_add_right hle))
  | loadSequence _ ih =>
      obtain ⟨m, rfl⟩ := Nat.exists_eq_add_of_le' (Nat.le_of_add_left_le hle)
      exact .loadSequence fun value => ih value (Nat.le_of_add_le_add_right hle)
  | store _ ih =>
      obtain ⟨m, rfl⟩ := Nat.exists_eq_add_of_le' (Nat.le_of_add_left_le hle)
      exact .store (ih (Nat.le_of_add_le_add_right hle))
  | load _ ih =>
      obtain ⟨m, rfl⟩ := Nat.exists_eq_add_of_le' (Nat.le_of_add_left_le hle)
      exact .load fun value => ih value (Nat.le_of_add_le_add_right hle)

theorem Bounded.of_returned (h : program.returned.isSome) : program.Bounded 0 := by
  cases program with
  | done result => exact .done result 0
  | _ => simp [returned] at h

variable [DecidableEq ι]

/-- Every access brings the program nearer its end. -/
theorem Bounded.step (h : program.Bounded n) (hstep : program.step memory = some (next, memory')) :
    ∃ m, m + 1 = n ∧ next.Bounded m := by
  cases h with
  | done result n => simp [Program.step] at hstep
  | fetchAdd h =>
      obtain ⟨rfl, -⟩ := Prod.mk.inj (Option.some.inj hstep)
      exact ⟨_, rfl, h⟩
  | loadSequence h =>
      obtain ⟨rfl, -⟩ := Prod.mk.inj (Option.some.inj hstep)
      exact ⟨_, rfl, h _⟩
  | store h =>
      obtain ⟨rfl, -⟩ := Prod.mk.inj (Option.some.inj hstep)
      exact ⟨_, rfl, h⟩
  | load h =>
      obtain ⟨rfl, -⟩ := Prod.mk.inj (Option.some.inj hstep)
      exact ⟨_, rfl, h _⟩

/-- A program that has not returned can make its next access. -/
theorem exists_step (h : program.returned = none) (memory : Memory ι V) :
    ∃ next memory', program.step memory = some (next, memory') := by
  cases program with
  | done result => simp [returned] at h
  | _ => exact ⟨_, _, rfl⟩

end Program

/-! ## Sequence locks -/

namespace Seqlock

variable {ι V α : Type} {layout : Layout ι V α} {orders : Orders} {blank : ι → V}

theorem bounded_storeCells (value : α) : ∀ rest : List ι,
    (storeCells layout orders value rest).Bounded (rest.length + 1) := by
  intro rest
  induction rest with
  | nil => exact .fetchAdd (.done () 0)
  | cons i rest ih => exact .store ih

variable [DecidableEq ι]

theorem bounded_loadCells {before : BitVec 64} {again : Program ι V (Bool × α)} {n : Nat}
    (hagain : again.Bounded n) : ∀ (rest : List ι) (got : ι → V),
      (loadCells layout orders before again rest got).Bounded (n + rest.length + 1) := by
  intro rest
  induction rest with
  | nil =>
      intro got
      refine .loadSequence fun after => ?_
      split
      · exact .done _ _
      · exact hagain
  | cons i rest ih => exact fun got => .load fun x => ih _

/-- Every attempt takes a load of each cell and two of the sequence. -/
theorem bounded_attempts (given : α) : ∀ left : Nat,
    (attempts layout orders blank given left).Bounded (left * (layout.order.length + 2)) := by
  intro left
  induction left with
  | zero => exact .done _ _
  | succ left ih =>
      have hcount : (left + 1) * (layout.order.length + 2) =
          left * (layout.order.length + 2) + layout.order.length + 1 + 1 := Nat.succ_mul _ _
      rw [hcount]
      refine .loadSequence fun before => ?_
      split
      · exact bounded_loadCells ih _ _
      · exact ih.mono (by omega)

variable {buffer : Buffer ι V α} {retries : Nat}

theorem Implements.bounded_publish (h : Implements layout orders blank retries buffer)
    (value : α) : (buffer.publish value).Bounded (layout.order.length + 2) := by
  rw [h.publish]
  exact .fetchAdd (bounded_storeCells value layout.order)

theorem Implements.bounded_read (h : Implements layout orders blank retries buffer) (given : α) :
    (buffer.read given).Bounded ((retries + 1) * (layout.order.length + 2)) := by
  rw [h.read]
  exact bounded_attempts given _

end Seqlock

/-! ## Clients of a buffer -/

section Clients

variable {ι V α T : Type}

/-- The event is a step of this reader. -/
def BufferEvent.IsBy (t : T) : BufferEvent α T → Prop
  | .read u _ | .access u => u = t
  | _ => False

namespace SharedBuffer

/-- A reader has at most so many accesses left. -/
def ReaderBounded (s : SharedBuffer ι V α T) (t : T) (n : Nat) : Prop :=
  ∀ call, s.calls t = some call → call.program.Bounded n

variable [DecidableEq ι] [DecidableEq T] {buffer : Buffer ι V α} {s s' : SharedBuffer ι V α T}
  {event : BufferEvent α T} {t : T} {n : Nat}

/-! ### The writer -/

theorem Step.writer_of_isRead (h : Step buffer s event s') (hevent : event.IsRead) :
    s'.writer = s.writer := by
  cases h with
  | publish value _ => exact hevent.elim
  | write _ => exact hevent.elim
  | read u given _ => rfl
  | access u haccess =>
      obtain ⟨-, -, -, -, -, hwriter, -⟩ := access_cases haccess
      exact hwriter

theorem Step.writer_of_publish {value : α} (h : Step buffer s (.publish value) s') :
    s'.writer = buffer.publish value := by
  cases h with
  | publish value _ => rfl

theorem Step.bounded_of_write (h : Step buffer s .write s') (hbounded : s.writer.Bounded n) :
    ∃ m, m + 1 = n ∧ s'.writer.Bounded m := by
  cases h with
  | write hwrite =>
      obtain ⟨⟨next, memory⟩, hstep, h⟩ := Option.bind_eq_some_iff.mp hwrite
      obtain rfl := Option.some.inj h
      exact hbounded.step hstep

theorem exists_write (h : s.isIdle = false) : ∃ s', Step buffer s .write s' := by
  have hreturned : s.writer.returned = none := by
    rwa [isIdle, Option.isSome_eq_false_iff, Option.isNone_iff_eq_none] at h
  obtain ⟨next, memory, hstep⟩ := Program.exists_step hreturned s.memory
  exact ⟨_, .write (Option.bind_eq_some_iff.mpr ⟨(next, memory), hstep, rfl⟩)⟩

/-! ### A reader -/

theorem Step.readerBounded_of_read {given : α} (h : Step buffer s (.read t given) s')
    (hread : (buffer.read given).Bounded n) : s'.ReaderBounded t n := by
  cases h with
  | read t given _ =>
      intro call hcall
      simp only [beginRead, Function.update_self] at hcall
      obtain rfl := Option.some.inj hcall
      exact hread

theorem Step.readerBounded_of_access (h : Step buffer s (.access t) s')
    (hbounded : s.ReaderBounded t n) : ∃ m, m + 1 = n ∧ s'.ReaderBounded t m := by
  cases h with
  | access t haccess =>
      obtain ⟨call, hcall, h⟩ := Option.bind_eq_some_iff.mp haccess
      obtain ⟨⟨next, memory⟩, hstep, h⟩ := Option.bind_eq_some_iff.mp h
      obtain rfl := Option.some.inj h
      obtain ⟨m, rfl, hnext⟩ := (hbounded call hcall).step hstep
      refine ⟨m, rfl, fun call' hcall' => ?_⟩
      simp only [Function.update_self] at hcall'
      obtain rfl := Option.some.inj hcall'
      exact hnext

/-- No step of another thread lengthens a read. -/
theorem Step.readerBounded_of_other (h : Step buffer s event s') (hother : ¬ event.IsBy t)
    (hbounded : s.ReaderBounded t n) : s'.ReaderBounded t n := by
  intro call' hcall'
  cases h with
  | publish value _ =>
      obtain ⟨call, hcall, rfl⟩ := Option.map_eq_some_iff.mp hcall'
      exact hbounded call hcall
  | write hwrite =>
      rw [(write_cases hwrite).2.1] at hcall'
      exact hbounded call' hcall'
  | read u given _ =>
      simp only [beginRead, Function.update_of_ne (Ne.symm hother)] at hcall'
      exact hbounded call' hcall'
  | access u haccess =>
      obtain ⟨call, program, attempt, -, -, -, -, hcalls⟩ := access_cases haccess
      rw [hcalls, Function.update_of_ne (Ne.symm hother)] at hcall'
      exact hbounded call' hcall'

theorem exists_access {call : Call ι V α} (hcall : s.calls t = some call)
    (h : call.result = none) : ∃ s', Step buffer s (.access t) s' := by
  obtain ⟨next, memory, hstep⟩ := Program.exists_step h s.memory
  exact ⟨_, .access t (Option.bind_eq_some_iff.mpr
    ⟨call, hcall, Option.bind_eq_some_iff.mpr ⟨(next, memory), hstep, rfl⟩⟩)⟩

theorem exists_publish (h : s.isIdle = true) (value : α) :
    ∃ s', Step buffer s (.publish value) s' := ⟨_, .publish value h⟩

/-! ### Calls and their threads -/

/-- Within a read the thread has a call under way, and outside none that has not
returned. -/
structure Attended (s : SharedBuffer ι V α T) (t : T) (reading : Prop) : Prop where
  call : reading → ∃ call, s.calls t = some call
  returned : ¬ reading → ∀ call, s.calls t = some call → call.result.isSome

namespace Attended

variable {reading reading' : Prop} {given : α}

omit [DecidableEq ι] [DecidableEq T] in
theorem initial (memory : Memory ι V) (first : α) (t : T) (hnone : ¬ reading) :
    (SharedBuffer.initial memory first : SharedBuffer ι V α T).Attended t reading where
  call := fun h => absurd h hnone
  returned := by simp [SharedBuffer.initial]

omit [DecidableEq ι] [DecidableEq T] in
theorem of_iff (h : s.Attended t reading) (hiff : reading' ↔ reading) : s.Attended t reading' where
  call := fun hreading => h.call (hiff.mp hreading)
  returned := fun hnone => h.returned fun hreading => hnone (hiff.mpr hreading)

/-- The steps of the other threads. -/
theorem other (h : s.Attended t reading) (hstep : Step buffer s event s')
    (hother : ¬ event.IsBy t) : s'.Attended t reading := by
  cases hstep with
  | publish value _ =>
      refine ⟨fun hreading => ?_, fun hnone call hcall => ?_⟩
      · obtain ⟨call, hcall⟩ := h.call hreading
        exact ⟨{ call with quiet := false }, by simp [beginPublish, hcall]⟩
      · obtain ⟨own, hown, rfl⟩ := Option.map_eq_some_iff.mp hcall
        exact h.returned hnone own hown
  | write hwrite =>
      have hcalls := (write_cases hwrite).2.1
      exact ⟨fun hreading => hcalls ▸ h.call hreading, fun hnone => hcalls ▸ h.returned hnone⟩
  | read u given _ =>
      have hcalls : (s.beginRead buffer u given).calls t = s.calls t :=
        Function.update_of_ne (Ne.symm hother) ..
      exact ⟨fun hreading => hcalls ▸ h.call hreading, fun hnone => hcalls ▸ h.returned hnone⟩
  | access u haccess =>
      obtain ⟨call, program, attempt, -, -, -, -, hupdate⟩ := access_cases haccess
      have hcalls : s'.calls t = s.calls t := by
        rw [hupdate, Function.update_of_ne (Ne.symm hother)]
      exact ⟨fun hreading => hcalls ▸ h.call hreading, fun hnone => hcalls ▸ h.returned hnone⟩

/-- The accesses of the read itself. -/
theorem access (hstep : Step buffer s (.access t) s') (hreading : reading) :
    s'.Attended t reading := by
  refine ⟨fun _ => ?_, fun hnone => absurd hreading hnone⟩
  cases hstep with
  | access t haccess =>
      obtain ⟨call, program, attempt, -, -, -, -, hupdate⟩ := access_cases haccess
      exact ⟨_, by rw [hupdate, Function.update_self]⟩

theorem start (hstep : Step buffer s (.read t given) s') (hreading : reading) :
    s'.Attended t reading :=
  ⟨fun _ => ⟨_, hstep.of_read⟩, fun hnone => absurd hreading hnone⟩

omit [DecidableEq ι] [DecidableEq T] in
/-- The thread has taken the result. -/
theorem stop {call : Call ι V α} {read : Bool × α} (hcall : s.calls t = some call)
    (hresult : call.result = some read) (hnone : ¬ reading) : s.Attended t reading where
  call := fun h => absurd h hnone
  returned := by
    intro _ own hown
    obtain rfl : call = own := Option.some.inj (hcall.symm.trans hown)
    rw [hresult]
    rfl

theorem exists_read (h : s.Attended t reading) (hnone : ¬ reading) (given : α) :
    ∃ s', Step buffer s (.read t given) s' := ⟨_, .read t given (h.returned hnone)⟩

/-- Within a read the thread has an access to make, or a result to take. -/
theorem exists_next (h : s.Attended t reading) (hreading : reading) :
    (∃ s', Step buffer s (.access t) s') ∨
      ∃ call read, s.calls t = some call ∧ call.result = some read := by
  obtain ⟨call, hcall⟩ := h.call hreading
  cases hresult : call.result with
  | none => exact .inl (exists_access hcall hresult)
  | some read => exact .inr ⟨call, read, hcall, hresult⟩

end Attended

end SharedBuffer

end Clients

end RobotController.Foundation
