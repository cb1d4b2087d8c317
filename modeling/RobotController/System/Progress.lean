/-
  System/Progress.lean --- no thread waits within its work.

  Sources: `control/ControlLoop.cpp` (`update`, `state`), `communication/CanCommunication.cpp`
  (`run`, `transmitState`), and the `publish` and `read` of the three buffers.

  A control cycle, an iteration of the communication thread, a call of `state` that holds
  its mutex and a read of the state of joint 1 are passages of one thread through code that
  shares variables with the others.  The buffers try a bounded number of times and never
  wait, so a passage takes a bounded number of its own steps.  Those that lock no mutex are
  never without a next one either, whatever the other threads do in between.
-/
import RobotController.Foundation.Amortized
import RobotController.Foundation.WaitFree
import RobotController.System.CommandConvergence

set_option autoImplicit false

namespace RobotController.System

open RobotController.Foundation RobotController.Core RobotController.Communication
open RobotController.Control RobotController.Synchronization

/-! ## Passages -/

/-- The passages of the threads. -/
inductive Passage (τ : Type) where
  /-- the worker in `update` -/
  | cycle
  /-- the communication thread in an iteration of `run` -/
  | iteration
  /-- a caller of `ControlLoop::state` while it holds `state_mutex_` -/
  | stateCall (t : τ)
  /-- a caller of `CanStateBuffer::read` other than the communication thread -/
  | canStateRead (t : τ)

namespace Passage

variable {R τ : Type}

/-- The most steps a passage takes after its first: three attempts of a read load every
cell and twice the sequence. -/
def limit : Passage τ → Nat
  | .cycle => 31
  | .iteration => 17
  | .stateCall _ => 43
  | .canStateRead _ => 12

/-- Whether a thread is within a passage. -/
def IsOpen (s : Controller R τ) : Passage τ → Prop
  | .cycle => s.cycle ≠ .outside
  | .iteration => s.link ≠ .receiving
  | .stateCall t => s.stateMutex = some t
  | .canStateRead t => ∃ call, s.canState.calls (some t) = some call ∧ call.result = none

/-- Whether a passage may begin: a cycle once the worker has entered an update, a call of
`state` once the mutex is free, the others whenever they are not under way. -/
def MayBegin (s : Controller R τ) : Passage τ → Prop
  | .cycle => s.cycle = .outside ∧ ∃ i, s.loop.members.isUpdating i = true
  | .iteration => s.link = .receiving
  | .stateCall _ => s.stateMutex = none
  | .canStateRead t => ∀ call, s.canState.calls (some t) = some call → call.result.isSome

/-- Whether a passage locks a mutex on its way: an iteration locks `mutex_` of the bus to
receive and to transmit.  Each of the two is one step here, so that waiting for the mutex
does not show. -/
def locks : Passage τ → Bool
  | .iteration => true
  | _ => false

variable [DecidableEq τ]

/-- Whether an event begins a passage. -/
def begins : Passage τ → ControllerEvent R τ → Bool
  | .cycle, .beginCycle _ => true
  | .iteration, .receive => true
  | .stateCall t, .lockState u => u = t
  | .canStateRead t, .readCanState u _ => u = t
  | _, _ => false

/-- Whether an event continues or ends a passage. -/
def continues : Passage τ → ControllerEvent R τ → Bool
  | .cycle, .accessCommand | .cycle, .steer | .cycle, .publishState | .cycle, .writeState
  | .cycle, .publishSnapshot | .cycle, .writeSnapshot | .cycle, .endCycle _ => true
  | .iteration, .writeCommand | .iteration, .sample | .iteration, .accessState
  | .iteration, .transmit => true
  | .stateCall t, .accessSnapshot u | .stateCall t, .returnState u => u = t
  | .canStateRead t, .accessCanState u => u = t
  | _, _ => false

/-- What a passage brings when it begins. -/
def brings (p : Passage τ) (event : ControllerEvent R τ) : Nat :=
  if p.begins event then p.limit else 0

/-- The step of a passage that an event is. -/
def spends (p : Passage τ) (event : ControllerEvent R τ) : Nat :=
  if p.continues event then 1 else 0

theorem sum_spends (p : Passage τ) (trace : List (ControllerEvent R τ)) :
    (trace.map p.spends).sum = trace.countP p.continues := sum_map_ite p.continues trace

theorem sum_brings {p : Passage τ} {trace : List (ControllerEvent R τ)}
    (hnone : ∀ event ∈ trace, p.begins event = false) : (trace.map p.brings).sum = 0 := by
  rw [List.sum_eq_zero_iff, List.forall_mem_map]
  intro event hevent
  simp [brings, hnone event hevent]

/-- The steps that continue a passage do not begin it. -/
theorem not_begins_of_continues {p : Passage τ} {event : ControllerEvent R τ}
    (h : p.continues event = true) : p.begins event = false := by
  cases p <;> cases event <;> first | rfl | cases h

theorem brings_of_continues {p : Passage τ} (event : ControllerEvent R τ)
    (h : p.continues event = true) : p.brings event = 0 ∧ 0 < p.spends event := by
  simp [brings, spends, not_begins_of_continues h, h]

end Passage

namespace Controller

/-! ## What the buffers take -/

section Buffers

variable {R : Type} [Double R]

theorem bounded_readCommand (given : JointCommand R) :
    ((CanCommandBuffer.buffer : Buffer CommandCell R (JointCommand R)).read given).Bounded 9 :=
  (CanCommandBuffer.implements fun _ => 0).bounded_read given

theorem bounded_publishCommand (command : JointCommand R) :
    ((CanCommandBuffer.buffer : Buffer CommandCell R (JointCommand R)).publish
      command).Bounded 3 :=
  (CanCommandBuffer.implements fun _ => 0).bounded_publish command

theorem bounded_readState (given : JointState R) :
    ((CanStateBuffer.buffer : Buffer StateCell R (JointState R)).read given).Bounded 12 :=
  (CanStateBuffer.implements fun _ => 0).bounded_read given

theorem bounded_publishState (state : JointState R) :
    ((CanStateBuffer.buffer : Buffer StateCell R (JointState R)).publish state).Bounded 4 :=
  (CanStateBuffer.implements fun _ => 0).bounded_publish state

theorem bounded_readSnapshot (given : RobotState R) :
    ((SnapshotBuffer.buffer : Buffer SnapshotCell R (RobotState R)).read given).Bounded 42 :=
  SnapshotBuffer.implements.bounded_read given

theorem bounded_publishSnapshot (state : RobotState R) :
    ((SnapshotBuffer.buffer : Buffer SnapshotCell R (RobotState R)).publish state).Bounded 14 :=
  SnapshotBuffer.implements.bounded_publish state

end Buffers

/-! ## What is left of a passage -/

section Due

variable {R τ : Type} {s s' : Controller R τ} {k : Nat}

/-- So many steps suffice for the rest of the cycle. -/
structure CycleDue (s : Controller R τ) (k : Nat) : Prop where
  reading : s.cycle = .readingCommand → ∃ n, s.commands.ReaderBounded () n ∧ n + 22 ≤ k
  steered : s.cycle = .steered → 21 ≤ k
  publishingState : s.cycle = .publishingState →
    ∃ n, s.canState.writer.Bounded n ∧ n + 16 ≤ k
  publishingSnapshot : s.cycle = .publishingSnapshot →
    ∃ n, s.snapshot.writer.Bounded n ∧ n + 1 ≤ k

/-- Steps of others that leave alone what is left. -/
theorem CycleDue.of_frame (h : CycleDue s k) (hcycle : s'.cycle = s.cycle)
    (hcommands : ∀ n, s.commands.ReaderBounded () n → s'.commands.ReaderBounded () n)
    (hcanState : s'.canState.writer = s.canState.writer)
    (hsnapshot : s'.snapshot.writer = s.snapshot.writer) : CycleDue s' k where
  reading := by
    intro hphase
    obtain ⟨n, hbounded, hle⟩ := h.reading (hcycle ▸ hphase)
    exact ⟨n, hcommands n hbounded, hle⟩
  steered := hcycle ▸ h.steered
  publishingState := hcycle ▸ hcanState ▸ h.publishingState
  publishingSnapshot := hcycle ▸ hsnapshot ▸ h.publishingSnapshot

/-- So many steps suffice for the rest of the iteration. -/
structure IterationDue (s : Controller R τ) (k : Nat) : Prop where
  publishing : s.link = .publishing → ∃ n, s.commands.writer.Bounded n ∧ n + 14 ≤ k
  sampling : s.link = .sampling → 14 ≤ k
  reading : s.link = .reading → ∃ n, s.canState.ReaderBounded none n ∧ n + 1 ≤ k

theorem IterationDue.of_frame (h : IterationDue s k) (hlink : s'.link = s.link)
    (hcommands : s'.commands.writer = s.commands.writer)
    (hcanState : ∀ n, s.canState.ReaderBounded none n → s'.canState.ReaderBounded none n) :
    IterationDue s' k where
  publishing := hlink ▸ hcommands ▸ h.publishing
  sampling := hlink ▸ h.sampling
  reading := by
    intro hphase
    obtain ⟨n, hbounded, hle⟩ := h.reading (hlink ▸ hphase)
    exact ⟨n, hcanState n hbounded, hle⟩

/-- So many steps suffice for the rest of the call. -/
def StateCallDue (t : τ) (s : Controller R τ) (k : Nat) : Prop :=
  s.stateMutex = some t → ∃ n, s.snapshot.ReaderBounded () n ∧ n + 1 ≤ k

/-- So many steps suffice for the rest of what the thread does in the passage. -/
def Due : Passage τ → Controller R τ → Nat → Prop
  | .cycle => CycleDue
  | .iteration => IterationDue
  | .stateCall t => StateCallDue t
  | .canStateRead t => fun s => s.canState.ReaderBounded (some t)

end Due

section Steps

variable {R τ : Type} [Double R] [IntConversion R] [DecidableEq τ] {s s' : Controller R τ}
  {event : ControllerEvent R τ} {k : Nat}

/-! ## Reads under way -/

/-- Each thread that reads a buffer has a call under way in its phase and at no other
time. -/
structure Attentive (s : Controller R τ) : Prop where
  commands : s.commands.Attended () (s.cycle = .readingCommand)
  canState : s.canState.Attended none (s.link = .reading)
  snapshot : s.snapshot.Attended () (s.stateMutex.isSome = true)

omit [IntConversion R] [DecidableEq τ] in
theorem attentive_initial (robot : Robot R) : (initial robot : Controller R τ).Attentive where
  commands := .initial _ _ _ (by simp [initial])
  canState := .initial _ _ _ (by simp [initial])
  snapshot := .initial _ _ _ (by simp [initial])

theorem Attentive.step (h : s.Attentive) (hstep : Step s event s') : s'.Attentive := by
  cases hstep with
  | beginCycle _ _ hbuffer => exact { h with commands := .start hbuffer rfl }
  | accessCommand hphase hbuffer => exact { h with commands := .access hbuffer hphase }
  | steer hphase hcall hread =>
      exact { h with commands := .stop hcall hread (by simp [Controller.steer]) }
  | publishState hphase hbuffer =>
      exact { h with
        commands := h.commands.of_iff (by simp [hphase])
        canState := h.canState.other hbuffer id }
  | writeState _ hbuffer => exact { h with canState := h.canState.other hbuffer id }
  | publishSnapshot hphase _ hbuffer =>
      exact { h with
        commands := h.commands.of_iff (by simp [hphase])
        snapshot := h.snapshot.other hbuffer id }
  | writeSnapshot _ hbuffer => exact { h with snapshot := h.snapshot.other hbuffer id }
  | endCycle hphase _ _ _ _ =>
      exact { h with commands := h.commands.of_iff (by simp [hphase]) }
  | receiveCommand hlink _ hbuffer =>
      exact { h with
        commands := h.commands.other hbuffer id
        canState := h.canState.of_iff (by simp [hlink]) }
  | receiveOther hlink _ => exact { h with canState := h.canState.of_iff (by simp [hlink]) }
  | writeCommand _ hbuffer => exact { h with commands := h.commands.other hbuffer id }
  | sample _ hbuffer => exact { h with canState := .start hbuffer rfl }
  | accessState hlink hbuffer => exact { h with canState := .access hbuffer hlink }
  | transmitState _ hcall hread _ => exact { h with canState := .stop hcall hread (by simp) }
  | transmitNothing _ hcall hread => exact { h with canState := .stop hcall hread (by simp) }
  | lockState _ hbuffer => exact { h with snapshot := .start hbuffer rfl }
  | accessSnapshot hmutex hbuffer =>
      exact { h with snapshot := .access hbuffer (by simp [hmutex]) }
  | returnState _ hcall hread =>
      exact { h with snapshot := .stop hcall hread (by simp [Controller.returnState]) }
  | readCanState hbuffer =>
      exact { h with canState := h.canState.other hbuffer (by simp [BufferEvent.IsBy]) }
  | accessCanState hbuffer =>
      exact { h with canState := h.canState.other hbuffer (by simp [BufferEvent.IsBy]) }
  | _ => exact { h with }

theorem Reached.attentive (h : s.Reached) : s.Attentive := by
  refine h.invariant Attentive ?_ fun _ _ _ hs hstep => hs.step hstep
  rintro start ⟨robot, rfl⟩
  exact attentive_initial robot

/-! ## Steps pay for themselves -/

theorem amortizes_cycle :
    Amortizes (Step (R := R) (τ := τ)) CycleDue (Passage.brings .cycle)
      (Passage.spends .cycle) := by
  intro s event s' k h hstep
  cases hstep with
  | beginCycle _ _ hbuffer =>
      refine ⟨31, ⟨fun _ => ⟨9, ?_, Nat.le_refl _⟩, by simp, by simp, by simp⟩, Nat.le_add_left _ _⟩
      exact hbuffer.readerBounded_of_read (bounded_readCommand _)
  | accessCommand hphase hbuffer =>
      obtain ⟨n, hbounded, hle⟩ := h.reading hphase
      obtain ⟨m, rfl, hbounded'⟩ := hbuffer.readerBounded_of_access hbounded
      refine ⟨m + 22, ⟨fun _ => ⟨m, hbounded', Nat.le_refl _⟩, ?_, ?_, ?_⟩, ?_⟩
      · simp [hphase]
      · simp [hphase]
      · simp [hphase]
      · change m + 22 + 1 ≤ k
        omega
  | steer hphase hcall hread =>
      obtain ⟨n, -, hle⟩ := h.reading hphase
      refine ⟨21, ⟨by simp [Controller.steer], fun _ => Nat.le_refl _, by simp [Controller.steer],
        by simp [Controller.steer]⟩, ?_⟩
      change 21 + 1 ≤ k
      omega
  | publishState hphase hbuffer =>
      refine ⟨20, ⟨by simp, by simp, fun _ => ⟨4, ?_, Nat.le_refl _⟩, by simp⟩, h.steered hphase⟩
      rw [hbuffer.writer_of_publish]
      exact bounded_publishState _
  | writeState hphase hbuffer =>
      obtain ⟨n, hbounded, hle⟩ := h.publishingState hphase
      obtain ⟨m, rfl, hbounded'⟩ := hbuffer.bounded_of_write hbounded
      refine ⟨m + 16, ⟨?_, ?_, fun _ => ⟨m, hbounded', Nat.le_refl _⟩, ?_⟩, ?_⟩
      · simp [hphase]
      · simp [hphase]
      · simp [hphase]
      · change m + 16 + 1 ≤ k
        omega
  | publishSnapshot hphase _ hbuffer =>
      obtain ⟨n, -, hle⟩ := h.publishingState hphase
      refine ⟨15, ⟨by simp, by simp, by simp, fun _ => ⟨14, ?_, Nat.le_refl _⟩⟩, ?_⟩
      · rw [hbuffer.writer_of_publish]
        exact bounded_publishSnapshot _
      · change 15 + 1 ≤ k
        omega
  | writeSnapshot hphase hbuffer =>
      obtain ⟨n, hbounded, hle⟩ := h.publishingSnapshot hphase
      obtain ⟨m, rfl, hbounded'⟩ := hbuffer.bounded_of_write hbounded
      refine ⟨m + 1, ⟨?_, ?_, ?_, fun _ => ⟨m, hbounded', Nat.le_refl _⟩⟩, hle⟩
      · simp [hphase]
      · simp [hphase]
      · simp [hphase]
  | endCycle hphase _ _ _ _ =>
      obtain ⟨n, -, hle⟩ := h.publishingSnapshot hphase
      refine ⟨0, ⟨by simp, by simp, by simp, by simp⟩, ?_⟩
      change 0 + 1 ≤ k
      omega
  | receiveCommand _ _ hbuffer =>
      exact ⟨k, h.of_frame rfl (fun _ => hbuffer.readerBounded_of_other id) rfl rfl, Nat.le_refl _⟩
  | writeCommand _ hbuffer =>
      exact ⟨k, h.of_frame rfl (fun _ => hbuffer.readerBounded_of_other id) rfl rfl, Nat.le_refl _⟩
  | sample _ hbuffer =>
      exact ⟨k, h.of_frame rfl (fun _ => id) (hbuffer.writer_of_isRead trivial) rfl, Nat.le_refl _⟩
  | accessState _ hbuffer =>
      exact ⟨k, h.of_frame rfl (fun _ => id) (hbuffer.writer_of_isRead trivial) rfl, Nat.le_refl _⟩
  | readCanState hbuffer =>
      exact ⟨k, h.of_frame rfl (fun _ => id) (hbuffer.writer_of_isRead trivial) rfl, Nat.le_refl _⟩
  | accessCanState hbuffer =>
      exact ⟨k, h.of_frame rfl (fun _ => id) (hbuffer.writer_of_isRead trivial) rfl, Nat.le_refl _⟩
  | lockState _ hbuffer =>
      exact ⟨k, h.of_frame rfl (fun _ => id) rfl (hbuffer.writer_of_isRead trivial), Nat.le_refl _⟩
  | accessSnapshot _ hbuffer =>
      exact ⟨k, h.of_frame rfl (fun _ => id) rfl (hbuffer.writer_of_isRead trivial), Nat.le_refl _⟩
  | _ => exact ⟨k, h.of_frame rfl (fun _ => id) rfl rfl, Nat.le_refl _⟩

theorem amortizes_iteration :
    Amortizes (Step (R := R) (τ := τ)) IterationDue (Passage.brings .iteration)
      (Passage.spends .iteration) := by
  intro s event s' k h hstep
  cases hstep with
  | receiveCommand _ _ hbuffer =>
      refine ⟨17, ⟨fun _ => ⟨3, ?_, Nat.le_refl _⟩, by simp, by simp⟩, Nat.le_add_left _ _⟩
      rw [hbuffer.writer_of_publish]
      exact bounded_publishCommand _
  | receiveOther _ _ =>
      exact ⟨14, ⟨by simp, fun _ => Nat.le_refl _, by simp⟩,
        Nat.le_add_left_of_le (by decide : 14 ≤ 17)⟩
  | writeCommand hlink hbuffer =>
      obtain ⟨n, hbounded, hle⟩ := h.publishing hlink
      obtain ⟨m, rfl, hbounded'⟩ := hbuffer.bounded_of_write hbounded
      refine ⟨m + 14, ⟨fun _ => ⟨m, hbounded', Nat.le_refl _⟩, ?_, ?_⟩, ?_⟩
      · simp [hlink]
      · simp [hlink]
      · change m + 14 + 1 ≤ k
        omega
  | sample hlink hbuffer =>
      refine ⟨13, ⟨by simp, by simp, fun _ => ⟨12, ?_, Nat.le_refl _⟩⟩, ?_⟩
      · exact hbuffer.readerBounded_of_read (bounded_readState _)
      · change 13 + 1 ≤ k
        rcases hlink with hsampling | ⟨hpublishing, -⟩
        · exact h.sampling hsampling
        · obtain ⟨n, -, hle⟩ := h.publishing hpublishing
          omega
  | accessState hlink hbuffer =>
      obtain ⟨n, hbounded, hle⟩ := h.reading hlink
      obtain ⟨m, rfl, hbounded'⟩ := hbuffer.readerBounded_of_access hbounded
      refine ⟨m + 1, ⟨?_, ?_, fun _ => ⟨m, hbounded', Nat.le_refl _⟩⟩, hle⟩
      · simp [hlink]
      · simp [hlink]
  | transmitState hlink _ _ _ =>
      obtain ⟨n, -, hle⟩ := h.reading hlink
      exact ⟨0, ⟨by simp, by simp, by simp⟩, Nat.le_of_add_left_le hle⟩
  | transmitNothing hlink _ _ =>
      obtain ⟨n, -, hle⟩ := h.reading hlink
      exact ⟨0, ⟨by simp, by simp, by simp⟩, Nat.le_of_add_left_le hle⟩
  | beginCycle _ _ hbuffer =>
      exact ⟨k, h.of_frame rfl (hbuffer.writer_of_isRead trivial) fun _ => id, Nat.le_refl _⟩
  | accessCommand _ hbuffer =>
      exact ⟨k, h.of_frame rfl (hbuffer.writer_of_isRead trivial) fun _ => id, Nat.le_refl _⟩
  | publishState _ hbuffer =>
      exact ⟨k, h.of_frame rfl rfl fun _ => hbuffer.readerBounded_of_other id, Nat.le_refl _⟩
  | writeState _ hbuffer =>
      exact ⟨k, h.of_frame rfl rfl fun _ => hbuffer.readerBounded_of_other id, Nat.le_refl _⟩
  | readCanState hbuffer =>
      exact ⟨k, h.of_frame rfl rfl fun _ => hbuffer.readerBounded_of_other
        (by simp [BufferEvent.IsBy]), Nat.le_refl _⟩
  | accessCanState hbuffer =>
      exact ⟨k, h.of_frame rfl rfl fun _ => hbuffer.readerBounded_of_other
        (by simp [BufferEvent.IsBy]), Nat.le_refl _⟩
  | _ => exact ⟨k, h.of_frame rfl rfl fun _ => id, Nat.le_refl _⟩

theorem amortizes_stateCall (t : τ) :
    Amortizes (Step (R := R)) (StateCallDue t) (Passage.brings (.stateCall t))
      (Passage.spends (.stateCall t)) := by
  intro s event s' k h hstep
  cases hstep with
  | @lockState u _ _ hbuffer =>
      rcases eq_or_ne u t with rfl | hne
      · refine ⟨43, fun _ => ⟨42, ?_, Nat.le_refl _⟩, ?_⟩
        · exact hbuffer.readerBounded_of_read (bounded_readSnapshot _)
        · simp [Passage.spends, Passage.brings, Passage.begins, Passage.continues, Passage.limit]
      · refine ⟨0, fun hmutex => absurd (Option.some.inj hmutex) hne, ?_⟩
        simp [Passage.spends, Passage.continues]
  | @accessSnapshot u _ hmutex hbuffer =>
      rcases eq_or_ne u t with rfl | hne
      · obtain ⟨n, hbounded, hle⟩ := h hmutex
        obtain ⟨m, rfl, hbounded'⟩ := hbuffer.readerBounded_of_access hbounded
        refine ⟨m + 1, fun _ => ⟨m, hbounded', Nat.le_refl _⟩, ?_⟩
        simp only [Passage.spends, Passage.continues, decide_true, if_true]
        omega
      · refine ⟨0, fun hmutex' => ?_, ?_⟩
        · exact absurd (Option.some.inj (hmutex.symm.trans hmutex')) hne
        · simp [Passage.spends, Passage.continues, hne]
  | @returnState u _ _ hmutex _ _ =>
      refine ⟨0, by simp [StateCallDue, Controller.returnState], ?_⟩
      rcases eq_or_ne u t with rfl | hne
      · obtain ⟨n, -, hle⟩ := h hmutex
        simp only [Passage.spends, Passage.continues, decide_true, if_true]
        omega
      · simp [Passage.spends, Passage.continues, hne]
  | publishSnapshot _ _ hbuffer =>
      refine ⟨k, fun hmutex => ?_, Nat.le_refl _⟩
      obtain ⟨n, hbounded, hle⟩ := h hmutex
      exact ⟨n, hbuffer.readerBounded_of_other id hbounded, hle⟩
  | writeSnapshot _ hbuffer =>
      refine ⟨k, fun hmutex => ?_, Nat.le_refl _⟩
      obtain ⟨n, hbounded, hle⟩ := h hmutex
      exact ⟨n, hbuffer.readerBounded_of_other id hbounded, hle⟩
  | _ => exact ⟨k, h, Nat.le_refl _⟩

theorem amortizes_canStateRead (t : τ) :
    Amortizes (Step (R := R)) (Due (.canStateRead t)) (Passage.brings (.canStateRead t))
      (Passage.spends (.canStateRead t)) := by
  intro s event s' k h hstep
  cases hstep with
  | @readCanState u _ _ hbuffer =>
      rcases eq_or_ne u t with rfl | hne
      · refine ⟨12, hbuffer.readerBounded_of_read (bounded_readState _), ?_⟩
        simp [Passage.spends, Passage.brings, Passage.begins, Passage.continues, Passage.limit]
      · exact ⟨k, hbuffer.readerBounded_of_other (by simpa [BufferEvent.IsBy] using hne) h,
          by simp [Passage.spends, Passage.continues]⟩
  | @accessCanState u _ hbuffer =>
      rcases eq_or_ne u t with rfl | hne
      · obtain ⟨m, rfl, hbounded⟩ := hbuffer.readerBounded_of_access h
        exact ⟨m, hbounded, by simp [Passage.spends, Passage.continues]⟩
      · exact ⟨k, hbuffer.readerBounded_of_other (by simpa [BufferEvent.IsBy] using hne) h,
          by simp [Passage.spends, Passage.continues, hne]⟩
  | publishState _ hbuffer => exact ⟨k, hbuffer.readerBounded_of_other id h, Nat.le_refl _⟩
  | writeState _ hbuffer => exact ⟨k, hbuffer.readerBounded_of_other id h, Nat.le_refl _⟩
  | sample _ hbuffer =>
      exact ⟨k, hbuffer.readerBounded_of_other (by simp [BufferEvent.IsBy]) h, Nat.le_refl _⟩
  | accessState _ hbuffer =>
      exact ⟨k, hbuffer.readerBounded_of_other (by simp [BufferEvent.IsBy]) h, Nat.le_refl _⟩
  | _ => exact ⟨k, h, Nat.le_refl _⟩

theorem amortizes (p : Passage τ) :
    Amortizes (Step (R := R)) (Due p) p.brings p.spends := by
  cases p with
  | cycle => exact amortizes_cycle
  | iteration => exact amortizes_iteration
  | stateCall t => exact amortizes_stateCall t
  | canStateRead t => exact amortizes_canStateRead t

/-- A passage begins when it may, and nothing is due then. -/
theorem mayBegin_of_begins {p : Passage τ} (hstep : Step s event s')
    (hevent : p.begins event = true) : p.MayBegin s := by
  cases hstep with
  | beginCycle houtside hupdating _ =>
      cases p with
      | cycle => exact ⟨houtside, _, hupdating⟩
      | _ => cases hevent
  | receiveCommand hlink _ _ =>
      cases p with
      | iteration => exact hlink
      | _ => cases hevent
  | receiveOther hlink _ =>
      cases p with
      | iteration => exact hlink
      | _ => cases hevent
  | lockState hmutex _ =>
      cases p with
      | stateCall t => exact hmutex
      | _ => cases hevent
  | @readCanState u _ _ hbuffer =>
      cases p with
      | canStateRead t =>
          obtain rfl : u = t := by simpa [Passage.begins] using hevent
          cases hbuffer with
          | read _ _ hreturned => exact hreturned
      | _ => cases hevent
  | _ => cases p <;> cases hevent

omit [Double R] [IntConversion R] [DecidableEq τ] in
theorem due_of_mayBegin {p : Passage τ} (h : p.MayBegin s) : Due p s 0 := by
  cases p with
  | cycle => exact ⟨by simp [h.1], by simp [h.1], by simp [h.1], by simp [h.1]⟩
  | iteration =>
      have hlink : s.link = .receiving := h
      exact ⟨by simp [hlink], by simp [hlink], by simp [hlink]⟩
  | stateCall t =>
      have hmutex : s.stateMutex = none := h
      exact fun hheld => by simp [hmutex] at hheld
  | canStateRead t => exact fun call hcall => .of_returned (h call hcall)

/-- What is due after the first step of a passage. -/
theorem exists_due {p : Passage τ} (hstep : Step s event s') (hevent : p.begins event = true) :
    ∃ k, Due p s' k ∧ k ≤ p.limit := by
  obtain ⟨k, hdue, hle⟩ :=
    amortizes p s event s' 0 (due_of_mayBegin (mayBegin_of_begins hstep hevent)) hstep
  rw [Passage.brings, if_pos hevent] at hle
  exact ⟨k, hdue, by omega⟩

omit [IntConversion R] [DecidableEq τ] in
theorem due_initial (p : Passage τ) (robot : Robot R) :
    Due p (initial robot : Controller R τ) 0 := by
  cases p with
  | cycle => exact ⟨by simp [initial], by simp [initial], by simp [initial], by simp [initial]⟩
  | canStateRead t => exact due_of_mayBegin (p := .canStateRead t) (by rintro call ⟨⟩)
  | iteration => exact due_of_mayBegin (p := .iteration) rfl
  | stateCall t => exact due_of_mayBegin (p := .stateCall t) rfl

/-- Nor is more due at any other moment. -/
theorem Reached.exists_due_le (p : Passage τ) (h : s.Reached) : ∃ k, Due p s k ∧ k ≤ p.limit := by
  refine h.invariant (fun s => ∃ k, Due p s k ∧ k ≤ p.limit) ?_ fun s event s' hs hstep => ?_
  · rintro start ⟨robot, rfl⟩
    exact ⟨0, due_initial p robot, Nat.zero_le _⟩
  · obtain ⟨k, hdue, hle⟩ := hs
    cases hevent : p.begins event with
    | true => exact exists_due hstep hevent
    | false =>
        obtain ⟨k', hdue', hle'⟩ := amortizes p s event s' k hdue hstep
        simp only [Passage.brings, hevent, Bool.false_eq_true, if_false] at hle'
        exact ⟨k', hdue', by omega⟩

/-- The steps of a passage alone. -/
theorem amortizes_own (p : Passage τ) :
    Amortizes (fun s event s' => p.continues event = true ∧ Step (R := R) s event s') (Due p)
      p.brings p.spends :=
  fun s event s' k hdue hstep => amortizes p s event s' k hdue hstep.2

/-! ## There is always a next step -/

/-- A worker within an update can end it. -/
theorem exists_work {loop : Lifecycle τ} {i : Nat} (h : loop.members.isUpdating i = true) :
    ∃ loop', Lifecycle.Step loop (.work i) loop' := by
  obtain ⟨w, hw, hupdating⟩ := Members.isUpdating_iff.mp h
  cases hstage : w.stage with
  | updating j =>
      have hwork : (loop.members.work loop.requests i).isSome := by
        simp [Members.work, hw, Worker.next, hstage]
      obtain ⟨members, hmembers⟩ := Option.isSome_iff_exists.mp hwork
      exact ⟨_, Option.map_eq_some_iff.mpr ⟨members, hmembers, rfl⟩⟩
  | _ => simp [Worker.isUpdating, hstage] at hupdating

/-- The first step of a passage is never in the way of another thread. -/
theorem exists_begin (p : Passage τ) (hs : s.Reached) (h : p.MayBegin s) :
    ∃ event s', p.begins event = true ∧ Step s event s' := by
  have hattentive := hs.attentive
  cases p with
  | cycle =>
      obtain ⟨houtside, i, hupdating⟩ := h
      obtain ⟨commands, hbuffer⟩ :=
        hattentive.commands.exists_read (by simp [houtside]) JointCommand.default
      exact ⟨.beginCycle i, _, rfl, .beginCycle houtside hupdating hbuffer⟩
  | iteration =>
      have hlink : s.link = .receiving := h
      cases hcommand : s.receivedCommand with
      | none => exact ⟨.receive, _, rfl, .receiveOther hlink hcommand⟩
      | some command =>
          have hidle := hs.commandsIdle (by simp [hlink])
          obtain ⟨commands, hbuffer⟩ := SharedBuffer.exists_publish hidle command
          exact ⟨.receive, _, rfl, .receiveCommand hlink hcommand hbuffer⟩
  | stateCall t =>
      have hmutex : s.stateMutex = none := h
      obtain ⟨snapshot, hbuffer⟩ :=
        hattentive.snapshot.exists_read (by simp [hmutex]) s.lastState
      exact ⟨.lockState t, _, by simp [Passage.begins], .lockState hmutex hbuffer⟩
  | canStateRead t =>
      exact ⟨.readCanState t JointState.default, _, by simp [Passage.begins],
        .readCanState (.read (some t) JointState.default h)⟩

/-- Nor is the next step of a cycle. -/
theorem exists_continue_cycle (hs : s.Reached) (hopen : s.cycle ≠ .outside)
    (hroom : s.loop.members.measuredCycles + 1 < 2 ^ 31) :
    ∃ event s', Passage.cycle.continues event = true ∧ Step s event s' := by
  have hcoordinated := hs.coordinated
  cases hphase : s.cycle with
  | outside => exact absurd hphase hopen
  | readingCommand =>
      rcases hs.attentive.commands.exists_next hphase with
        ⟨commands, hbuffer⟩ | ⟨call, read, hcall, hread⟩
      · exact ⟨.accessCommand, _, rfl, .accessCommand hphase hbuffer⟩
      · exact ⟨.steer, _, rfl, .steer hphase hcall hread⟩
  | steered =>
      have hidle := hcoordinated.canStateIdle (by simp [hphase])
      obtain ⟨canState, hbuffer⟩ := SharedBuffer.exists_publish hidle (s.robot.state 0)
      exact ⟨.publishState, _, rfl, .publishState hphase hbuffer⟩
  | publishingState =>
      cases hidle : s.canState.isIdle with
      | true =>
          have hidle' := hcoordinated.snapshotIdle (by simp [hphase])
          obtain ⟨snapshot, hbuffer⟩ := SharedBuffer.exists_publish hidle' s.robot.state
          exact ⟨.publishSnapshot, _, rfl, .publishSnapshot hphase hidle hbuffer⟩
      | false =>
          obtain ⟨canState, hbuffer⟩ := SharedBuffer.exists_write hidle
          exact ⟨.writeState, _, rfl, .writeState hphase hbuffer⟩
  | publishingSnapshot =>
      cases hidle : s.snapshot.isIdle with
      | true =>
          obtain ⟨i, hupdating⟩ := hcoordinated.updating hopen
          obtain ⟨loop, hloop⟩ := exists_work hupdating
          exact ⟨.endCycle i, _, rfl, .endCycle hphase hidle hupdating hroom hloop⟩
      | false =>
          obtain ⟨snapshot, hbuffer⟩ := SharedBuffer.exists_write hidle
          exact ⟨.writeSnapshot, _, rfl, .writeSnapshot hphase hbuffer⟩

/-- Nor that of a call of `state`. -/
theorem exists_continue_stateCall (hs : s.Reached) {t : τ} (hmutex : s.stateMutex = some t) :
    ∃ event s', (Passage.stateCall t).continues event = true ∧ Step s event s' := by
  have hreading : s.stateMutex.isSome = true := by simp [hmutex]
  rcases hs.attentive.snapshot.exists_next hreading with
    ⟨snapshot, hbuffer⟩ | ⟨call, read, hcall, hread⟩
  · exact ⟨.accessSnapshot t, _, by simp [Passage.continues], .accessSnapshot hmutex hbuffer⟩
  · exact ⟨.returnState t, _, by simp [Passage.continues], .returnState hmutex hcall hread⟩

/-! ## The cycles counted -/

theorem measured_of_begins (hstep : Step s event s')
    (hevent : Passage.cycle.begins event = true) :
    s'.loop.members.measuredCycles = s.loop.members.measuredCycles := by
  have hends : event.endsCycle = false := by
    cases event <;> first | rfl | cases hevent
  simpa [hends] using measured_of_step hstep

/-- Outside a cycle only its first step leads into it. -/
theorem outside_kept (hstep : Step s event s') (hnone : Passage.cycle.begins event = false)
    (houtside : s.cycle = .outside) : s'.cycle = .outside := by
  cases hstep with
  | beginCycle _ _ _ => cases hnone
  | steer hphase _ _ => simp [houtside] at hphase
  | publishState hphase _ => simp [houtside] at hphase
  | publishSnapshot hphase _ _ => simp [houtside] at hphase
  | endCycle _ _ _ _ _ => rfl
  | _ => exact houtside

/-- Within a cycle none is counted. -/
theorem measured_of_open {trace : List (ControllerEvent R τ)} (hexec : Execution Step s trace s')
    (hnone : ∀ event ∈ trace, Passage.cycle.begins event = false) (hopen : s'.cycle ≠ .outside) :
    s'.loop.members.measuredCycles = s.loop.members.measuredCycles := by
  have hkeeps : ∀ (s : Controller R τ) event (s' : Controller R τ),
      Passage.cycle.begins event = false → s.cycle = .outside → Step s event s' →
        s'.cycle = .outside :=
    fun _ _ _ hbegins hs hstep => outside_kept hstep hbegins hs
  induction hexec with
  | refl _ => rfl
  | @cons _ _ _ event _ hstep hrest ih =>
      rw [List.forall_mem_cons] at hnone
      rw [ih hnone.2 hopen, measured_of_step hstep]
      cases hends : event.endsCycle with
      | false => rfl
      | true =>
          have houtside := hrest.keeps_of_forall hkeeps hnone.2 (outside_of_endsCycle hstep hends)
          exact absurd houtside hopen

end Steps

/-! ## Passages end -/

section Ends

variable {R τ : Type} [Double R] [IntConversion R] [DecidableEq τ] {start s t : Controller R τ}
  {event : ControllerEvent R τ} {trace : List (ControllerEvent R τ)} {p : Passage τ}

/-- A passage that is under way and locks no mutex can go on; a cycle as long as the cycles
can be counted. -/
theorem exists_continue (hlocks : p.locks = false) (hs : s.Reached) (hopen : p.IsOpen s)
    (hroom : p = .cycle → s.loop.members.measuredCycles + 1 < 2 ^ 31) :
    ∃ event s', p.continues event = true ∧ Step s event s' := by
  cases p with
  | cycle => exact exists_continue_cycle hs hopen (hroom rfl)
  | iteration => cases hlocks
  | stateCall t => exact exists_continue_stateCall hs hopen
  | canStateRead t =>
      obtain ⟨call, hcall, hresult⟩ := hopen
      obtain ⟨canState, hbuffer⟩ := SharedBuffer.exists_access hcall hresult
      exact ⟨.accessCanState t, _, by simp [Passage.continues], .accessCanState hbuffer⟩

/-- However the other threads interleave, a passage that locks no mutex ends.  From its first
step on, its thread takes a bounded number of steps until it ends; the steps still to be taken
can be taken with no help from any other thread; and once the passage may begin again, its
next first step can be taken at once. -/
theorem passage_ends (hlocks : p.locks = false) (hstart : start.Reached)
    (hbegin : Step start event s) (hevent : p.begins event = true)
    (hroom : p = .cycle → start.loop.members.measuredCycles + 1 < 2 ^ 31)
    (hexec : Execution Step s trace t) (hnone : ∀ event ∈ trace, p.begins event = false) :
    (∃ rest u, Execution Step t rest u ∧ (∀ event ∈ rest, p.continues event = true) ∧
      trace.countP p.continues + rest.length ≤ p.limit ∧ ¬ p.IsOpen u) ∧
    (p.MayBegin t → ∃ event u, p.begins event = true ∧ Step t event u) := by
  have ht : t.Reached := (hstart.step hbegin).execution hexec
  refine ⟨?_, exists_begin p ht⟩
  obtain ⟨k, hdue, hk⟩ := exists_due hbegin hevent
  obtain ⟨m, hdue', hm⟩ := (amortizes p).execution hexec hdue
  rw [p.sum_spends, Passage.sum_brings hnone] at hm
  -- from here on only the steps of the passage are taken
  obtain ⟨rest, u, hrest, hown, hlength, hstuck⟩ :=
    (amortizes_own p).exists_rest Passage.brings_of_continues hdue'
  refine ⟨rest, u, hrest.mono fun _ _ _ h => h.2, hown, by omega, fun hopen => ?_⟩
  have hcounted : p = .cycle → u.loop.members.measuredCycles + 1 < 2 ^ 31 := by
    rintro rfl
    have hall : ∀ event ∈ trace ++ rest, Passage.cycle.begins event = false := by
      rw [List.forall_mem_append]
      exact ⟨hnone, fun event hmem => Passage.not_begins_of_continues (hown event hmem)⟩
    rw [measured_of_open (hexec.append (hrest.mono fun _ _ _ h => h.2)) hall hopen,
      measured_of_begins hbegin hevent]
    exact hroom rfl
  obtain ⟨event, u', hcontinues, hstep⟩ :=
    exists_continue hlocks (ht.execution (hrest.mono fun _ _ _ h => h.2)) hopen hcounted
  exact hstuck event u' hcontinues ⟨hcontinues, hstep⟩

end Ends

/-! ## A cycle between the steps of others -/

section Within

/-- While the worker reads the command, the communication thread reads the state and `state`
is called. -/
def cycleWithin : List (ControllerEvent ℚ Unit) :=
  [.receive, .accessCommand, .sample, .lockState (), .accessCommand, .accessState,
    .accessSnapshot (), .accessCommand]

theorem passage_ends_cycleWithin :
    ∃ s t : Controller ℚ Unit, (startEvents () 1).foldlM next (initial Robot.initial) = some s ∧
      (.beginCycle 0 :: cycleWithin).foldlM next s = some t ∧
      ∃ rest u, Execution Step t rest u ∧
        (∀ event ∈ rest, Passage.cycle.continues event = true) ∧ rest.length ≤ 28 ∧
        u.cycle = .outside := by
  have hrun : ∃ start s t : Controller ℚ Unit,
      (startEvents () 1).foldlM next (initial Robot.initial) = some start ∧
      start.loop.members.measuredCycles = 0 ∧ start.next (.beginCycle 0) = some s ∧
      cycleWithin.foldlM next s = some t := ⟨_, _, _, rfl, rfl, rfl, rfl⟩
  obtain ⟨start, s, t, hstart, hnew, hs, ht⟩ := hrun
  obtain ⟨rest, u, hrest, hown, hlength, hclosed⟩ :=
    (passage_ends (p := .cycle) rfl (reached_of_schedule _ _ hstart) (step_of_next hs) rfl
      (by simp [hnew]) (Execution.of_schedule (fun _ _ _ => step_of_next) cycleWithin ht)
      (by decide)).1
  have hcount : cycleWithin.countP Passage.cycle.continues = 3 := by decide
  have hlimit : (Passage.cycle : Passage Unit).limit = 31 := rfl
  refine ⟨start, t, hstart, ?_, rest, u, hrest, hown, by omega, not_not.mp hclosed⟩
  rw [List.foldlM_cons, hs]
  exact ht

end Within

/-! ## An iteration goes on -/

section Exact

variable {K τ : Type} [Field K] [LinearOrder K] [IsStrictOrderedRing K] [FloorRing K]
  [DecidableEq τ] {s : Controller K τ}

omit [IsStrictOrderedRing K] in
theorem ReachedFromNew.loose (h : s.ReachedFromNew) : s.LooseReached :=
  h.invariant LooseReached (fun _ hstart => .init hstart) fun _ _ _ hs hstep =>
    hs.step (.strict hstep)

/-- What the communication thread has read can be encoded. -/
theorem exists_continue_iteration (hs : s.ReachedFromNew) (hopen : s.link ≠ .receiving) :
    ∃ event s', Passage.iteration.continues event = true ∧ Step s event s' := by
  have hattentive := hs.reached.attentive
  have hsample : s.link ≠ .reading →
      ∃ canState, SharedBuffer.Step CanStateBuffer.buffer s.canState
        (.read none JointState.default) canState :=
    fun hlink => hattentive.canState.exists_read hlink _
  cases hlink : s.link with
  | receiving => exact absurd hlink hopen
  | publishing =>
      cases hidle : s.commands.isIdle with
      | true =>
          obtain ⟨canState, hbuffer⟩ := hsample (by simp [hlink])
          exact ⟨.sample, _, rfl, .sample (.inr ⟨hlink, hidle⟩) hbuffer⟩
      | false =>
          obtain ⟨commands, hbuffer⟩ := SharedBuffer.exists_write hidle
          exact ⟨.writeCommand, _, rfl, .writeCommand hlink hbuffer⟩
  | sampling =>
      obtain ⟨canState, hbuffer⟩ := hsample (by simp [hlink])
      exact ⟨.sample, _, rfl, .sample (.inl hlink) hbuffer⟩
  | reading =>
      rcases hattentive.canState.exists_next hlink with
        ⟨canState, hbuffer⟩ | ⟨call, ⟨ok, state⟩, hcall, hread⟩
      · exact ⟨.accessState, _, rfl, .accessState hlink hbuffer⟩
      · cases ok with
        | false => exact ⟨.transmit, _, rfl, .transmitNothing hlink hcall hread⟩
        | true =>
            have hranged := hs.loose.ranged
            obtain ⟨n, -, -, hn⟩ := hranged.locked.canState.of_true hcall hread
            obtain ⟨frame, hframe, -⟩ :=
              (hranged.history state (List.mem_of_getElem? hn)).encode
            exact ⟨.transmit, _, rfl, .transmitState hlink hcall hread hframe⟩

end Exact

end Controller

end RobotController.System
