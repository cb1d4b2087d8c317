/-
  System/Coordination.lean --- how the parts of the program fit together.

  Each part runs as its own machine, so what is known of the loop, of the bus and of
  a sequence lock holds of it; and the worker publishes at fixed places of its cycle,
  so the publications are counted by the cycles.
-/
import RobotController.System.System

set_option autoImplicit false

namespace RobotController.Control

open RobotController.Foundation

/-! ## Updates of a worker -/

namespace Members

variable {m m' : Members} {requests i j : Nat} {c c' : Critical}

theorem isUpdating_iff :
    m.isUpdating i = true ↔ ∃ w, m.workers[i]? = some w ∧ w.isUpdating = true :=
  Option.any_eq_true _ _

/-- A cycle is counted when an update ends. -/
theorem measured_of_work (h : m.work requests i = some m') :
    m'.measuredCycles = if m.isUpdating i then m.measuredCycles + 1 else m.measuredCycles := by
  obtain ⟨w, hw, h⟩ := Option.bind_eq_some_iff.mp h
  obtain ⟨w', -, h⟩ := Option.bind_eq_some_iff.mp h
  cases hstage : w.stage <;> rw [hstage] at h <;> obtain rfl := Option.some.inj h <;>
    simp [isUpdating, hw, Worker.isUpdating, hstage]

theorem isUpdating_of_work (h : m.work requests i = some m') (hother : m.isUpdating i = false)
    (hj : m.isUpdating j = true) : m'.isUpdating j = true := by
  obtain ⟨v, hv, hupdating⟩ := isUpdating_iff.mp hj
  obtain ⟨v', hv', ⟨-, rfl⟩ | ⟨rfl, -⟩⟩ := worker_of_work h hv
  · simp [isUpdating, hv', hupdating]
  · rw [hj] at hother
    simp at hother

theorem isUpdating_of_advance (h : Advances m requests c m' c') (hj : m.isUpdating j = true) :
    m'.isUpdating j = true := by
  obtain ⟨v, hv, hupdating⟩ := isUpdating_iff.mp hj
  obtain ⟨stopToken, joined, -, hv'⟩ := worker_of_advance h hv
  simpa [isUpdating, hv', Worker.isUpdating] using hupdating

theorem measured_of_advance (h : Advances m requests c m' c') :
    m'.measuredCycles = m.measuredCycles := by
  cases h <;> rfl

/-- A worker within an update has not been joined. -/
theorem Consistent.allJoined_eq_false {critical : Option Critical}
    (h : m.Consistent requests critical) (hi : m.isUpdating i = true) : m.allJoined = false := by
  obtain ⟨w, hw, hupdating⟩ := isUpdating_iff.mp hi
  have hmem := List.mem_of_getElem? hw
  by_contra hall
  rw [Bool.not_eq_false, allJoined, List.all_eq_true] at hall
  have hended := (h.worker i w hw).ended (hall w hmem)
  simp [Worker.isUpdating, hended] at hupdating

end Members

end RobotController.Control

namespace RobotController.System

open RobotController.Foundation RobotController.Core RobotController.Communication
open RobotController.Control RobotController.Synchronization

/-! ## The loop -/

section Loop

variable {τ : Type} [DecidableEq τ] {loop loop' : Lifecycle τ} {event : LifecycleEvent τ} {i : Nat}

/-- Between the ends of updates the cycles stay as they are, and so do the workers
within one. -/
theorem loop_kept (h : Lifecycle.Step loop event loop') (hends : endsUpdate loop event = false) :
    loop'.members.measuredCycles = loop.members.measuredCycles ∧
      ∀ i, loop.members.isUpdating i = true → loop'.members.isUpdating i = true := by
  cases event with
  | call t caller =>
      obtain rfl := Lifecycle.call_cases h
      exact ⟨rfl, fun _ => id⟩
  | requestStop =>
      obtain rfl := Option.some.inj h
      exact ⟨rfl, fun _ => id⟩
  | acquire t =>
      obtain ⟨c, -, -, rfl⟩ := Lifecycle.acquire_cases h
      exact ⟨rfl, fun _ => id⟩
  | proceed t =>
      obtain ⟨c, untouched, m', c', -, hadvances, rfl⟩ := Lifecycle.proceed_cases h
      exact ⟨Members.measured_of_advance hadvances,
        fun _ => Members.isUpdating_of_advance hadvances⟩
  | release t =>
      obtain ⟨c, untouched, -, ⟨n, found, worker, -, rfl⟩ | ⟨-, rfl⟩⟩ :=
        Lifecycle.release_cases h
      · exact ⟨rfl, fun _ => id⟩
      · exact ⟨rfl, fun _ => id⟩
  | work j =>
      obtain ⟨m', hm, rfl⟩ := Option.map_eq_some_iff.mp h
      have hother : loop.members.isUpdating j = false := hends
      refine ⟨?_, fun _ => Members.isUpdating_of_work hm hother⟩
      simpa [hother] using Members.measured_of_work hm

theorem measured_of_endsUpdate (h : Lifecycle.Step loop (.work i) loop')
    (hupdating : loop.members.isUpdating i = true) :
    loop'.members.measuredCycles = loop.members.measuredCycles + 1 := by
  obtain ⟨m', hm, rfl⟩ := Option.map_eq_some_iff.mp h
  simpa [hupdating] using Members.measured_of_work hm

end Loop

namespace CyclePhase

/-- The states a cycle has begun to publish. -/
def states : CyclePhase → Nat
  | .publishingState | .publishingSnapshot => 1
  | _ => 0

/-- The snapshots a cycle has begun to publish. -/
def snapshots : CyclePhase → Nat
  | .publishingSnapshot => 1
  | _ => 0

theorem published_le (phase : CyclePhase) : phase.states ≤ 1 ∧ phase.snapshots ≤ 1 := by
  cases phase <;> decide

end CyclePhase

namespace Controller

variable {R τ : Type}

/-- What the phases of the two threads say.  The worker is within an update while it
is in a cycle; a writer is at work only in its phase; every cycle publishes once to
either buffer. -/
structure Coordinated (s : Controller R τ) : Prop where
  loop : s.loop.Orderly
  measured : s.loop.members.measuredCycles < 2 ^ 31
  updating : s.cycle ≠ .outside → ∃ i, s.loop.members.isUpdating i = true
  canStateIdle : s.cycle ≠ .publishingState → s.canState.isIdle = true
  snapshotIdle : s.cycle ≠ .publishingSnapshot → s.snapshot.isIdle = true
  canStateLength :
    s.canState.history.length = s.loop.members.measuredCycles + 1 + s.cycle.states
  snapshotLength :
    s.snapshot.history.length = s.loop.members.measuredCycles + 1 + s.cycle.snapshots
  stage : s.traffic.stage = if s.link = .receiving then .receiving else .transmitting

/-- With every worker joined no cycle is in progress. -/
theorem Coordinated.outside {s : Controller R τ} (h : s.Coordinated)
    (hjoined : s.loop.members.allJoined = true) : s.cycle = .outside := by
  by_contra hne
  obtain ⟨i, hi⟩ := h.updating hne
  rw [h.loop.consistent.allJoined_eq_false hi] at hjoined
  simp at hjoined

/-- A reader of the state buffer changes nothing the phases speak of. -/
theorem Coordinated.ofCanStateRead [DecidableEq τ] {s : Controller R τ} (h : s.Coordinated)
    {access : BufferEvent (JointState R) (Option τ)}
    {canState : SharedBuffer StateCell R (JointState R) (Option τ)}
    (hbuffer : SharedBuffer.Step CanStateBuffer.buffer s.canState access canState)
    (haccess : access.IsRead) : Coordinated { s with canState := canState } := by
  obtain ⟨hhistory, hidle, -⟩ := hbuffer.of_isRead haccess
  exact { h with
    canStateIdle := fun hne => hidle.trans (h.canStateIdle hne)
    canStateLength := by rw [hhistory]; exact h.canStateLength }

variable [Double R]

/-- Nor does a reader of the snapshots. -/
theorem Coordinated.ofSnapshotRead {s : Controller R τ} (h : s.Coordinated)
    {access : BufferEvent (RobotState R) Unit}
    {snapshot : SharedBuffer SnapshotCell R (RobotState R) Unit}
    (hbuffer : SharedBuffer.Step SnapshotBuffer.buffer s.snapshot access snapshot)
    (haccess : access.IsRead) : Coordinated { s with snapshot := snapshot } := by
  obtain ⟨hhistory, hidle, -⟩ := hbuffer.of_isRead haccess
  exact { h with
    snapshotIdle := fun hne => hidle.trans (h.snapshotIdle hne)
    snapshotLength := by rw [hhistory]; exact h.snapshotLength }

theorem coordinated_initial (robot : Robot R) : (initial robot : Controller R τ).Coordinated where
  loop := Lifecycle.orderly_initial
  measured := Nat.two_pow_pos 31
  updating := fun h => absurd rfl h
  canStateIdle := fun _ => rfl
  snapshotIdle := fun _ => rfl
  canStateLength := rfl
  snapshotLength := rfl
  stage := rfl

/-- The three buffers are sequence locks.  An `int` counts the cycles, so the
sequence numbers of the two buffers the worker writes never wrap around. -/
structure Locked (s : Controller R τ) : Prop where
  commands : Seqlock.Refines CanCommandBuffer.layout CanCommandBuffer.orders (fun _ => 0)
    s.commands
  canState : Seqlock.Refines CanStateBuffer.layout CanStateBuffer.orders (fun _ => 0)
    s.canState
  snapshot : Seqlock.Refines SnapshotBuffer.layout SnapshotBuffer.orders
    (SnapshotBuffer.cells RobotState.default) s.snapshot

theorem locked_initial (robot : Robot R) : (initial robot : Controller R τ).Locked where
  commands := Seqlock.Refines.initial JointCommand.default
  canState := by
    have hmemory : (CanStateBuffer.memory : Memory StateCell R) =
        ⟨0, CanStateBuffer.layout.cells JointState.default⟩ := by
      unfold CanStateBuffer.memory
      congr 1
      funext cell
      cases cell <;> rfl
    simp only [initial, hmemory]
    exact Seqlock.Refines.initial JointState.default
  snapshot := by
    simp only [initial, SnapshotBuffer.initial_eq]
    exact Seqlock.Refines.initial RobotState.default

variable [IntConversion R] [DecidableEq τ] {s s' : Controller R τ} {event : ControllerEvent R τ}

/-- Every step of every thread keeps the parts together. -/
theorem Coordinated.step (h : s.Coordinated) (hstep : Step s event s') : s'.Coordinated := by
  cases hstep with
  | lifecycle hends hloop =>
      obtain ⟨hmeasured, hupdating⟩ := loop_kept hloop hends
      exact { h with
        loop := h.loop.step hloop
        measured := hmeasured ▸ h.measured
        updating := fun hne => (h.updating hne).imp hupdating
        canStateLength := hmeasured ▸ h.canStateLength
        snapshotLength := hmeasured ▸ h.snapshotLength }
  | operate operation _ => exact { h with }
  | beginCycle houtside hupdating _ =>
      exact { h with
        updating := fun _ => ⟨_, hupdating⟩
        canStateIdle := fun _ => h.canStateIdle (by simp [houtside])
        snapshotIdle := fun _ => h.snapshotIdle (by simp [houtside])
        canStateLength := by simpa [houtside, CyclePhase.states] using h.canStateLength
        snapshotLength := by simpa [houtside, CyclePhase.snapshots] using h.snapshotLength }
  | accessCommand _ _ => exact { h with }
  | steer hphase _ _ =>
      exact { h with
        updating := fun _ => h.updating (by simp [hphase])
        canStateIdle := fun _ => h.canStateIdle (by simp [hphase])
        snapshotIdle := fun _ => h.snapshotIdle (by simp [hphase])
        canStateLength := by
          simpa [steer, hphase, CyclePhase.states] using h.canStateLength
        snapshotLength := by
          simpa [steer, hphase, CyclePhase.snapshots] using h.snapshotLength }
  | publishState hphase hbuffer =>
      exact { h with
        updating := fun _ => h.updating (by simp [hphase])
        canStateIdle := fun hne => absurd rfl hne
        snapshotIdle := fun _ => h.snapshotIdle (by simp [hphase])
        canStateLength := by
          simpa [hbuffer.of_publish.1, hphase, CyclePhase.states] using h.canStateLength
        snapshotLength := by
          simpa [hphase, CyclePhase.snapshots] using h.snapshotLength }
  | writeState hphase hbuffer =>
      exact { h with
        canStateIdle := fun hne => absurd hphase hne
        canStateLength := by rw [hbuffer.of_write.1]; exact h.canStateLength }
  | publishSnapshot hphase hidle hbuffer =>
      exact { h with
        updating := fun _ => h.updating (by simp [hphase])
        canStateIdle := fun _ => hidle
        snapshotIdle := fun hne => absurd rfl hne
        canStateLength := by simpa [hphase, CyclePhase.states] using h.canStateLength
        snapshotLength := by
          simpa [hbuffer.of_publish.1, hphase, CyclePhase.snapshots] using h.snapshotLength }
  | writeSnapshot hphase hbuffer =>
      exact { h with
        snapshotIdle := fun hne => absurd hphase hne
        snapshotLength := by rw [hbuffer.of_write.1]; exact h.snapshotLength }
  | endCycle hphase hidle hupdating hcount hloop =>
      have hmeasured := measured_of_endsUpdate hloop hupdating
      exact { h with
        loop := h.loop.step hloop
        measured := hmeasured ▸ hcount
        updating := fun hne => absurd rfl hne
        canStateIdle := fun _ => h.canStateIdle (by simp [hphase])
        snapshotIdle := fun _ => hidle
        canStateLength := by
          have hlength := h.canStateLength
          rw [hphase] at hlength
          simp only [hmeasured, CyclePhase.states] at hlength ⊢
          omega
        snapshotLength := by
          have hlength := h.snapshotLength
          rw [hphase] at hlength
          simp only [hmeasured, CyclePhase.snapshots] at hlength ⊢
          omega }
  | external frame => exact { h with }
  | receiveCommand _ _ _ => exact { h with stage := s.traffic.stage_receive }
  | receiveOther _ _ => exact { h with stage := s.traffic.stage_receive }
  | writeCommand _ _ => exact { h with }
  | sample hphase hbuffer =>
      have hstage : s.traffic.stage = .transmitting := by
        rw [h.stage]
        rcases hphase with hsampling | ⟨hpublishing, -⟩
        · simp [hsampling]
        · simp [hpublishing]
      exact { h.ofCanStateRead hbuffer trivial with stage := hstage }
  | accessState _ hbuffer => exact h.ofCanStateRead hbuffer trivial
  | transmitState _ _ _ _ => exact { h with stage := rfl }
  | transmitNothing _ _ _ => exact { h with stage := rfl }
  | lockState _ hbuffer => exact { h.ofSnapshotRead hbuffer trivial with }
  | accessSnapshot _ hbuffer => exact h.ofSnapshotRead hbuffer trivial
  | returnState _ _ _ => exact { h with }
  | readCanState hbuffer => exact h.ofCanStateRead hbuffer trivial
  | accessCanState hbuffer => exact h.ofCanStateRead hbuffer trivial

theorem Reached.coordinated (h : s.Reached) : s.Coordinated := by
  refine h.invariant Coordinated ?_ fun _ _ _ => Coordinated.step
  rintro start ⟨robot, rfl⟩
  exact coordinated_initial robot

/-! ## The parts -/

/-- The loop runs as a loop of its own. -/
theorem Reached.lifecycle (h : s.Reached) : s.loop.Reached := by
  refine h.invariant (fun s => s.loop.Reached) ?_ fun s event s' hs hstep => ?_
  · rintro start ⟨robot, rfl⟩
    exact Reachable.init rfl
  · cases hstep with
    | lifecycle _ hloop => exact hs.step hloop
    | endCycle _ _ _ _ hloop => exact hs.step hloop
    | _ => exact hs

/-- The bus runs as a bus of its own. -/
theorem Reached.traffic (h : s.Reached) : Traffic.Reached R s.traffic := by
  refine h.invariant_of_reachable (fun s => Traffic.Reached R s.traffic) ?_
    fun s event s' hs htraffic hstep => ?_
  · rintro start ⟨robot, rfl⟩
    exact Reachable.init rfl
  · have hstage := (Reached.coordinated hs).stage
    cases hstep with
    | external frame => exact htraffic.step (.external frame)
    | receiveCommand hphase _ _ => exact htraffic.step (.receive (by simpa [hphase] using hstage))
    | receiveOther hphase _ => exact htraffic.step (.receive (by simpa [hphase] using hstage))
    | transmitState hphase _ _ hencode =>
        exact htraffic.step (.transmitState (by simpa [hphase] using hstage) hencode)
    | transmitNothing hphase _ _ =>
        exact htraffic.step (.readFailed (by simpa [hphase] using hstage))
    | _ => exact htraffic

/-- The command buffer moves as its clients do. -/
theorem commands_of_step (h : Step s event s') :
    s'.commands = s.commands ∨
      ∃ event, SharedBuffer.Step CanCommandBuffer.buffer s.commands event s'.commands := by
  cases h with
  | beginCycle _ _ hbuffer => exact .inr ⟨_, hbuffer⟩
  | accessCommand _ hbuffer => exact .inr ⟨_, hbuffer⟩
  | receiveCommand _ _ hbuffer => exact .inr ⟨_, hbuffer⟩
  | writeCommand _ hbuffer => exact .inr ⟨_, hbuffer⟩
  | _ => exact .inl rfl

theorem canState_of_step (h : Step s event s') :
    s'.canState = s.canState ∨
      ∃ event, SharedBuffer.Step CanStateBuffer.buffer s.canState event s'.canState := by
  cases h with
  | publishState _ hbuffer => exact .inr ⟨_, hbuffer⟩
  | writeState _ hbuffer => exact .inr ⟨_, hbuffer⟩
  | sample _ hbuffer => exact .inr ⟨_, hbuffer⟩
  | accessState _ hbuffer => exact .inr ⟨_, hbuffer⟩
  | readCanState hbuffer => exact .inr ⟨_, hbuffer⟩
  | accessCanState hbuffer => exact .inr ⟨_, hbuffer⟩
  | _ => exact .inl rfl

theorem snapshot_of_step (h : Step s event s') :
    s'.snapshot = s.snapshot ∨
      ∃ event, SharedBuffer.Step SnapshotBuffer.buffer s.snapshot event s'.snapshot := by
  cases h with
  | publishSnapshot _ _ hbuffer => exact .inr ⟨_, hbuffer⟩
  | writeSnapshot _ hbuffer => exact .inr ⟨_, hbuffer⟩
  | lockState _ hbuffer => exact .inr ⟨_, hbuffer⟩
  | accessSnapshot _ hbuffer => exact .inr ⟨_, hbuffer⟩
  | _ => exact .inl rfl

theorem Locked.step (h : s.Locked) (hcoordinated : s.Coordinated) (hstep : Step s event s') :
    s'.Locked := by
  have hle := s.cycle.published_le
  have hmeasured := hcoordinated.measured
  have hcanState := hcoordinated.canStateLength
  have hsnapshot := hcoordinated.snapshotLength
  refine ⟨?_, ?_, ?_⟩
  · rcases commands_of_step hstep with hsame | ⟨event, hbuffer⟩
    · rw [hsame]
      exact h.commands
    · exact h.commands.step (CanCommandBuffer.implements _) (.inl inferInstance) hbuffer
  · rcases canState_of_step hstep with hsame | ⟨event, hbuffer⟩
    · rw [hsame]
      exact h.canState
    · exact h.canState.step (CanStateBuffer.implements _)
        (.inr (SharedBuffer.noWrap_of_length (by omega))) hbuffer
  · rcases snapshot_of_step hstep with hsame | ⟨event, hbuffer⟩
    · rw [hsame]
      exact h.snapshot
    · exact h.snapshot.step SnapshotBuffer.implements
        (.inr (SharedBuffer.noWrap_of_length (by omega))) hbuffer

theorem Reached.locked (h : s.Reached) : s.Locked := by
  refine h.invariant_of_reachable Locked ?_
    fun _ _ _ hs hlocked hstep => hlocked.step (Reached.coordinated hs) hstep
  rintro start ⟨robot, rfl⟩
  exact locked_initial robot

end Controller

end RobotController.System
