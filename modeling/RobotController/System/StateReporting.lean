/-
  System/StateReporting.lean --- from the robot to the callers of `state`.

  Source: `control/ControlLoop.cpp` (`update`, `state`).

  A call whose read fails falls back on the last state any call has read, so the
  reports never go back; and once the worker has been joined they are the state of the
  robot.
-/
import RobotController.System.Coordination

set_option autoImplicit false

namespace RobotController.System

open RobotController.Foundation RobotController.Core RobotController.Communication
open RobotController.Control RobotController.Synchronization

namespace Controller

/-! ## Reports never go back -/

section Reports

variable {R τ : Type}

/-- The reports as reads: a report of a failed read requires no publication. -/
def reportReads (s : Controller R τ) : List (Nat × RobotState R) :=
  s.reports.map fun report => (if report.ok then report.since else 0, report.state)

/-- The reports are ascending, `last_state_` being the latest of them. -/
def Ordered (s : Controller R τ) : Prop :=
  s.snapshot.Serial () (s.stateMutex.isSome = true) s.reportReads s.lastState

variable [Double R]

theorem ordered_initial (robot : Robot R) : (initial robot : Controller R τ).Ordered :=
  SharedBuffer.Serial.initial _ _ _ (by simp [initial])

/-- A call that returns. -/
theorem Ordered.returnState {s : Controller R τ} (h : s.Ordered) (hlocked : s.Locked)
    {call : Call SnapshotCell R (RobotState R)} {read : Bool × RobotState R}
    (hmutex : s.stateMutex.isSome = true) (hcall : s.snapshot.calls () = some call)
    (hread : call.result = some read) : (s.returnState call.since read).Ordered := by
  have hdone : ¬ (s.returnState call.since read).stateMutex.isSome = true := by
    simp [Controller.returnState]
  unfold Ordered
  rcases read with ⟨_ | _, state⟩
  · have hadded : (s.returnState call.since (false, state)).reportReads =
        s.reportReads ++ [(0, s.lastState)] := by
      simp [reportReads, Controller.returnState]
    rw [hadded]
    exact h.again hdone
  · have hadded : (s.returnState call.since (true, state)).reportReads =
        s.reportReads ++ [(call.since, state)] := by
      simp [reportReads, Controller.returnState]
    rw [hadded]
    exact h.succeed hmutex hlocked.snapshot hcall hread hdone

variable [IntConversion R] [DecidableEq τ] {s s' : Controller R τ} {event : ControllerEvent R τ}

theorem Ordered.step (h : s.Ordered) (hlocked : s.Locked) (hstep : Step s event s') :
    s'.Ordered := by
  cases hstep with
  | publishSnapshot _ _ hbuffer => exact h.step hbuffer (by simp)
  | writeSnapshot _ hbuffer => exact h.step hbuffer (by simp)
  | lockState _ hbuffer => exact h.start hbuffer
  | accessSnapshot _ hbuffer => exact h.step hbuffer (by simp)
  | returnState hmutex hcall hread => exact h.returnState hlocked (by simp [hmutex]) hcall hread
  | _ => exact h

end Reports

/-! ## The latest publications -/

section Latest

variable {R τ : Type}

/-- The latest publications are the state of the robot: between cycles if there has
been one and the robot has been left alone since, and within a cycle once it has
published. -/
structure Published (s : Controller R τ) : Prop where
  between : s.cycle = .outside ∨ s.cycle = .readingCommand → s.touched = false →
    0 < s.loop.members.measuredCycles →
      s.canState.history.getLast? = some (s.robot.state 0) ∧
        s.snapshot.history.getLast? = some s.robot.state
  canState : s.cycle = .publishingState ∨ s.cycle = .publishingSnapshot →
    s.canState.history.getLast? = some (s.robot.state 0)
  snapshot : s.cycle = .publishingSnapshot → s.snapshot.history.getLast? = some s.robot.state

/-- The reads and writes of the buffers do not matter. -/
theorem Published.congr {s s' : Controller R τ} (h : s.Published)
    (hsame : (s'.robot, s'.touched, s'.loop.members.measuredCycles, s'.cycle) =
      (s.robot, s.touched, s.loop.members.measuredCycles, s.cycle))
    (hcanState : s'.canState.history = s.canState.history)
    (hsnapshot : s'.snapshot.history = s.snapshot.history) : s'.Published := by
  simp only [Prod.mk.injEq] at hsame
  obtain ⟨hrobot, htouched, hmeasured, hcycle⟩ := hsame
  refine ⟨?_, ?_, ?_⟩
  · rw [hcycle, htouched, hmeasured, hcanState, hsnapshot, hrobot]
    exact h.between
  · rw [hcycle, hcanState, hrobot]
    exact h.canState
  · rw [hcycle, hsnapshot, hrobot]
    exact h.snapshot

variable [Double R]

theorem published_initial (robot : Robot R) : (initial robot : Controller R τ).Published where
  between := fun _ _ hpositive => absurd hpositive (Nat.lt_irrefl 0)
  canState := by simp [initial]
  snapshot := by simp [initial]

variable [IntConversion R] [DecidableEq τ] {s s' : Controller R τ} {event : ControllerEvent R τ}

theorem Published.step (h : s.Published) (hcoordinated : s.Coordinated) (hstep : Step s event s') :
    s'.Published := by
  cases hstep with
  | lifecycle hends hloop => exact h.congr (by simp [(loop_kept hloop hends).1]) rfl rfl
  | operate operation hjoined =>
      have houtside := hcoordinated.outside hjoined
      exact ⟨by simp, by simp [houtside], by simp [houtside]⟩
  | beginCycle houtside _ _ => exact ⟨fun _ => h.between (.inl houtside), by simp, by simp⟩
  | steer _ _ _ => exact ⟨by simp [steer], by simp [steer], by simp [steer]⟩
  | publishState _ hbuffer =>
      refine ⟨by simp, fun _ => ?_, by simp⟩
      rw [hbuffer.of_publish.1, List.getLast?_concat]
  | writeState _ hbuffer => exact h.congr rfl hbuffer.of_write.1 rfl
  | publishSnapshot hphase _ hbuffer =>
      refine ⟨by simp, fun _ => h.canState (.inl hphase), fun _ => ?_⟩
      rw [hbuffer.of_publish.1, List.getLast?_concat]
  | writeSnapshot _ hbuffer => exact h.congr rfl rfl hbuffer.of_write.1
  | endCycle hphase _ _ _ _ =>
      exact ⟨fun _ _ _ => ⟨h.canState (.inr hphase), h.snapshot hphase⟩, by simp, by simp⟩
  | sample _ hbuffer => exact h.congr rfl (hbuffer.of_isRead trivial).1 rfl
  | accessState _ hbuffer => exact h.congr rfl (hbuffer.of_isRead trivial).1 rfl
  | lockState _ hbuffer => exact h.congr rfl rfl (hbuffer.of_isRead trivial).1
  | accessSnapshot _ hbuffer => exact h.congr rfl rfl (hbuffer.of_isRead trivial).1
  | readCanState hbuffer => exact h.congr rfl (hbuffer.of_isRead trivial).1 rfl
  | accessCanState hbuffer => exact h.congr rfl (hbuffer.of_isRead trivial).1 rfl
  | _ => exact { h with }

end Latest

/-! ## While nothing operates on the robot -/

section Settled

variable {R τ : Type}

/-- A cycle has been completed, and since then nothing has operated on the robot, so
the worker is at most at the beginning of another. -/
structure Settled (robot : Robot R) (s : Controller R τ) : Prop where
  robot : s.robot = robot
  touched : s.touched = false
  measured : 0 < s.loop.members.measuredCycles
  cycle : s.cycle = .outside ∨ s.cycle = .readingCommand

theorem Settled.cycle_ne {robot : Robot R} {s : Controller R τ} (h : s.Settled robot) :
    s.cycle ≠ .steered ∧ s.cycle ≠ .publishingState ∧ s.cycle ≠ .publishingSnapshot := by
  rcases h.cycle with hcycle | hcycle <;> simp [hcycle]

/-- A call of `state` in progress is undisturbed. -/
def StateQuiet (s : Controller R τ) : Prop :=
  s.stateMutex.isSome = true → s.snapshot.Quiet ()

variable [Double R]

/-- What holds from the moment the robot is left alone. -/
structure AtRest (robot : Robot R) (s : Controller R τ) : Prop where
  coordinated : s.Coordinated
  locked : s.Locked
  published : s.Published
  settled : s.Settled robot

theorem AtRest.latest {robot : Robot R} {s : Controller R τ} (h : s.AtRest robot) :
    s.canState.history.getLast? = some (robot.state 0) ∧
      s.snapshot.history.getLast? = some robot.state := by
  obtain ⟨rfl, htouched, hmeasured, hcycle⟩ := h.settled
  exact h.published.between hcycle htouched hmeasured

variable [IntConversion R] [DecidableEq τ] {robot : Robot R} {s s' : Controller R τ}
  {event : ControllerEvent R τ}

theorem Settled.step (h : s.Settled robot) (hevent : event.isRobotOperation = false)
    (hstep : Step s event s') : s'.Settled robot := by
  obtain ⟨hsteered, hstate, hsnapshot⟩ := h.cycle_ne
  cases hstep with
  | lifecycle hends hloop =>
      exact { h with measured := (loop_kept hloop hends).1 ▸ h.measured }
  | operate _ _ => simp [ControllerEvent.isRobotOperation] at hevent
  | beginCycle _ _ _ => exact { h with cycle := .inr rfl }
  | steer _ _ _ => simp [ControllerEvent.isRobotOperation] at hevent
  | publishState hphase _ => exact absurd hphase hsteered
  | publishSnapshot hphase _ _ => exact absurd hphase hstate
  | endCycle hphase _ _ _ _ => exact absurd hphase hsnapshot
  | _ => exact { h with }

theorem StateQuiet.step (h : s.StateQuiet) (hsettled : s.Settled robot)
    (hcoordinated : s.Coordinated) (hstep : Step s event s') : s'.StateQuiet := by
  have hidle := hcoordinated.snapshotIdle hsettled.cycle_ne.2.2
  cases hstep with
  | publishSnapshot hphase _ _ => exact absurd hphase hsettled.cycle_ne.2.1
  | writeSnapshot hphase _ => exact absurd hphase hsettled.cycle_ne.2.2
  | lockState _ hbuffer => exact fun _ => .start hbuffer hidle
  | accessSnapshot _ hbuffer =>
      exact fun hmutex => (h hmutex).step hbuffer hidle (by simp)
  | returnState _ _ _ => exact fun hmutex => absurd hmutex (by simp [returnState])
  | _ => exact h

/-- A read of the state of joint 1 in progress is undisturbed. -/
theorem Settled.canStateQuiet (h : s.Settled robot) (hcoordinated : s.Coordinated)
    {reader : Option τ} (hquiet : s.canState.Quiet reader) (hstep : Step s event s') :
    s'.canState.Quiet reader := by
  have hidle := hcoordinated.canStateIdle h.cycle_ne.2.1
  cases hstep with
  | publishState hphase _ => exact absurd hphase h.cycle_ne.1
  | writeState _ hbuffer => exact hquiet.step hbuffer hidle (by simp)
  | sample _ hbuffer => exact hquiet.step hbuffer hidle (by simp)
  | accessState _ hbuffer => exact hquiet.step hbuffer hidle (by simp)
  | readCanState hbuffer => exact hquiet.step hbuffer hidle (by simp)
  | accessCanState hbuffer => exact hquiet.step hbuffer hidle (by simp)
  | _ => exact hquiet

theorem AtRest.step (h : s.AtRest robot) (hevent : event.isRobotOperation = false)
    (hstep : Step s event s') : s'.AtRest robot where
  coordinated := h.coordinated.step hstep
  locked := h.locked.step h.coordinated hstep
  published := h.published.step h.coordinated hstep
  settled := h.settled.step hevent hstep

end Settled

/-! ## What callers of `state` see -/

section Callers

variable {R τ : Type}

/-- Who begins to read the state of joint 1. -/
def sampler : ControllerEvent R τ → Option (Option τ)
  | .sample => some none
  | .readCanState t _ => some (some t)
  | _ => none

variable [Double R] [IntConversion R] [DecidableEq τ] {s s' : Controller R τ}
  {event : ControllerEvent R τ}

theorem Reached.reported (h : s.Reached) : s.Ordered ∧ s.Published := by
  refine h.invariant_of_reachable (fun s => s.Ordered ∧ s.Published) ?_
    fun s _ _ hs ⟨hordered, hpublished⟩ hstep => ?_
  · rintro start ⟨robot, rfl⟩
    exact ⟨ordered_initial robot, published_initial robot⟩
  · have hreached : s.Reached := hs
    exact ⟨hordered.step hreached.locked hstep, hpublished.step hreached.coordinated hstep⟩

/-- Snapshots are published by control cycles only. -/
theorem history_of_step (h : Step s event s') :
    s'.snapshot.history = s.snapshot.history ∨
      event = .publishSnapshot ∧
        s'.snapshot.history = s.snapshot.history ++ [s.robot.state] := by
  cases h with
  | publishSnapshot _ _ hbuffer => exact .inr ⟨rfl, hbuffer.of_publish.1⟩
  | writeSnapshot _ hbuffer => exact .inl hbuffer.of_write.1
  | lockState _ hbuffer => exact .inl (hbuffer.of_isRead trivial).1
  | accessSnapshot _ hbuffer => exact .inl (hbuffer.of_isRead trivial).1
  | _ => exact .inl rfl

theorem Reached.history (h : s.Reached) : [RobotState.default] <+: s.snapshot.history := by
  refine h.invariant (fun s => [RobotState.default] <+: s.snapshot.history) ?_
    fun s event s' hs hstep => ?_
  · rintro start ⟨robot, rfl⟩
    exact List.prefix_rfl
  · rcases history_of_step hstep with hsame | ⟨-, hadded⟩
    · rwa [hsame]
    · rw [hadded]
      exact hs.trans (List.prefix_append _ _)

/-- Once a cycle has been completed and the worker joined, the program is at rest as
long as the robot is left alone. -/
theorem Reached.atRest (h : s.Reached) (hmeasured : 0 < s.loop.members.measuredCycles)
    (hjoined : s.loop.members.allJoined = true) (htouched : s.touched = false) :
    s.AtRest s.robot where
  coordinated := h.coordinated
  locked := h.locked
  published := h.reported.2
  settled := ⟨rfl, htouched, hmeasured, .inl (h.coordinated.outside hjoined)⟩

/-- A call of `state` that begins and ends at rest reports the state of the robot. -/
theorem AtRest.report {robot : Robot R} {s₁ s₂ s₃ : Controller R τ} {t : τ}
    {trace : List (ControllerEvent R τ)} (h : s.AtRest robot) (hlock : Step s (.lockState t) s₁)
    (hexec : Execution Step s₁ trace s₂) (hrest : ∀ event ∈ trace, event.isRobotOperation = false)
    (hreturn : Step s₂ (.returnState t) s₃) :
    s₃.robot = robot ∧ ∃ since, s₃.reports = s₂.reports ++ [⟨since, true, s₃.robot.state⟩] := by
  have hkeeps : ∀ (a : Controller R τ) (event : ControllerEvent R τ) (b : Controller R τ),
      event.isRobotOperation = false → a.AtRest robot ∧ a.StateQuiet → Step a event b →
        b.AtRest robot ∧ b.StateQuiet :=
    fun a event b hevent hrest hstep => ⟨hrest.1.step hevent hstep,
      hrest.2.step hrest.1.settled hrest.1.coordinated hstep⟩
  have hbegun : s₁.AtRest robot ∧ s₁.StateQuiet := by
    refine ⟨h.step rfl hlock, ?_⟩
    cases hlock with
    | lockState _ hbuffer =>
        exact fun _ => .start hbuffer (h.coordinated.snapshotIdle h.settled.cycle_ne.2.2)
  obtain ⟨hdone, hquiet⟩ := hexec.keeps_of_forall hkeeps hrest hbegun
  cases hreturn with
  | @returnState _ call read hmutex hcall hread =>
      obtain ⟨hok, hlast⟩ := (hquiet (by simp [hmutex])).eq hdone.locked.snapshot hcall hread
      have hstate := Option.some.inj (hdone.latest.2.symm.trans hlast)
      refine ⟨hdone.settled.robot, call.since, ?_⟩
      simp [returnState, hok, hdone.settled.robot, hstate]

/-- A read of the state of joint 1 that begins and ends at rest obtains it. -/
theorem AtRest.sample {robot : Robot R} {s₁ s₂ : Controller R τ} {reader : Option τ}
    {trace : List (ControllerEvent R τ)} {call : Call StateCell R (JointState R)}
    {read : Bool × JointState R} (h : s.AtRest robot) (hsampler : sampler event = some reader)
    (hbegin : Step s event s₁) (hexec : Execution Step s₁ trace s₂)
    (hrest : ∀ event ∈ trace, event.isRobotOperation = false)
    (hcall : s₂.canState.calls reader = some call) (hread : call.result = some read) :
    s₂.robot = robot ∧ read = (true, s₂.robot.state 0) := by
  have hkeeps : ∀ (a : Controller R τ) (event : ControllerEvent R τ) (b : Controller R τ),
      event.isRobotOperation = false → a.AtRest robot ∧ a.canState.Quiet reader →
        Step a event b → b.AtRest robot ∧ b.canState.Quiet reader :=
    fun a event b hevent hrest hstep => ⟨hrest.1.step hevent hstep,
      hrest.1.settled.canStateQuiet hrest.1.coordinated hrest.2 hstep⟩
  have hidle := h.coordinated.canStateIdle h.settled.cycle_ne.2.1
  have hbegun : s₁.AtRest robot ∧ s₁.canState.Quiet reader := by
    cases hbegin with
    | sample hphase hbuffer =>
        obtain rfl : none = reader := by simpa [sampler] using hsampler
        exact ⟨h.step rfl (.sample hphase hbuffer), .start hbuffer hidle⟩
    | @readCanState t _ _ hbuffer =>
        obtain rfl : some t = reader := by simpa [sampler] using hsampler
        exact ⟨h.step rfl (.readCanState hbuffer), .start hbuffer hidle⟩
    | _ => simp [sampler] at hsampler
  obtain ⟨hdone, hquiet⟩ := hexec.keeps_of_forall hkeeps hrest hbegun
  obtain ⟨hok, hlast⟩ := hquiet.eq hdone.locked.canState hcall hread
  have hstate := Option.some.inj (hdone.latest.1.symm.trans hlast)
  refine ⟨hdone.settled.robot, Prod.ext hok ?_⟩
  rw [← hstate, hdone.settled.robot]

/-- `state` never goes back and ends at the truth.  Every report is a whole state: the
initial one or one that a cycle has published.  In the order in which the calls hold
the mutex the reports follow the publications without going back, whether their reads
succeed or not.  Once a cycle has been completed and the worker joined, and as long as
nothing operates on the robot, calls of `state` report the state of the robot, and
reads of the state of joint 1 obtain that. -/
theorem state_never_goes_back (hs : s.Reached) :
    ([RobotState.default] <+: s.snapshot.history ∧
        ∀ event s', Step s event s' → s'.snapshot.history = s.snapshot.history ∨
          event = .publishSnapshot ∧
            s'.snapshot.history = s.snapshot.history ++ [s.robot.state]) ∧
      (∃ indices : List Nat,
        List.Forall₂ (fun (report : Report R) n => s.snapshot.history[n]? = some report.state ∧
            (report.ok = true → report.since ≤ n)) s.reports indices ∧
          indices.Pairwise (· ≤ ·)) ∧
      (0 < s.loop.members.measuredCycles → s.loop.members.allJoined = true →
        s.touched = false →
        (∀ (t : τ) (s₁ s₂ s₃ : Controller R τ) (trace : List (ControllerEvent R τ)),
          Step s (.lockState t) s₁ → Execution Step s₁ trace s₂ →
          (∀ event ∈ trace, event.isRobotOperation = false) → Step s₂ (.returnState t) s₃ →
            s₃.robot = s.robot ∧
              ∃ since, s₃.reports = s₂.reports ++ [⟨since, true, s₃.robot.state⟩]) ∧
        ∀ (reader : Option τ) (event : ControllerEvent R τ) (s₁ s₂ : Controller R τ)
          (trace : List (ControllerEvent R τ)) (call : Call StateCell R (JointState R))
          (read : Bool × JointState R),
          sampler event = some reader → Step s event s₁ → Execution Step s₁ trace s₂ →
          (∀ event ∈ trace, event.isRobotOperation = false) →
          s₂.canState.calls reader = some call → call.result = some read →
            s₂.robot = s.robot ∧ read = (true, s₂.robot.state 0)) := by
  obtain ⟨⟨⟨indices, latest, hreads, hordered, -⟩, -⟩, -⟩ := hs.reported
  refine ⟨⟨hs.history, fun _ _ => history_of_step⟩, ⟨indices, ?_, hordered⟩,
    fun hmeasured hjoined htouched => ⟨?_, ?_⟩⟩
  · refine (List.forall₂_map_left_iff.mp hreads).imp fun report n hread => ⟨hread.2, fun hok => ?_⟩
    simpa [hok] using hread.1
  · intro t s₁ s₂ s₃ trace hlock hexec hrest hreturn
    exact (hs.atRest hmeasured hjoined htouched).report hlock hexec hrest hreturn
  · intro reader event s₁ s₂ trace call read hsampler hbegin hexec hrest hcall hread
    exact (hs.atRest hmeasured hjoined htouched).sample hsampler hbegin hexec hrest hcall hread

end Callers

/-! ## One cycle -/

section OneCycle

/-- A run of one cycle, and `wait`. -/
def cycleOnce : List (ControllerEvent ℚ Unit) :=
  startEvents () 1 ++ updateEvents ++ [.lifecycle (.work 0), .lifecycle (.call () .wantsWait),
    .lifecycle (.acquire ()), .lifecycle (.proceed ()), .lifecycle (.proceed ()),
    .lifecycle (.release ())]

/-- The accesses of a call of `state`. -/
def readSnapshot : List (ControllerEvent ℚ Unit) := List.replicate 14 (.accessSnapshot ())

theorem state_never_goes_back_once :
    ∃ (s s' : Controller ℚ Unit) (since : Nat), s.Reached ∧ s'.Reached ∧
      s.loop.members.allJoined = true ∧ s'.robot = s.robot ∧
      s'.robot.state 0 = ⟨⟨8999997 / 200000⟩, ⟨-3 / 100⟩⟩ ∧
      s'.reports = [⟨since, true, s'.robot.state⟩] := by
  have hrun : ∃ s s₁ s₂ s₃ : Controller ℚ Unit,
      cycleOnce.foldlM next (initial ControlLoop.placed) = some s ∧
      s.robot =
        (ControlLoop.steer (true, JointCommand.default) ControlLoop.placed).update ControlLoop.dt ∧
      s.loop.members.measuredCycles = 1 ∧ s.loop.members.allJoined = true ∧
      s.touched = false ∧ s.next (.lockState ()) = some s₁ ∧
      readSnapshot.foldlM next s₁ = some s₂ ∧ s₂.next (.returnState ()) = some s₃ ∧
      s₂.reports = [] :=
    ⟨_, _, _, _, rfl, rfl, rfl, rfl, rfl, rfl, rfl, rfl, rfl⟩
  obtain ⟨s, s₁, s₂, s₃, hs, hmoved, hmeasured, hjoined, htouched, hlock, hread, hreturn, hnone⟩ :=
    hrun
  have hreached := reached_of_schedule _ _ hs
  have hexec := Execution.of_schedule (fun _ _ _ => step_of_next) _ hread
  obtain ⟨-, -, hrest⟩ := state_never_goes_back hreached
  obtain ⟨hreport, -⟩ := hrest (by omega) hjoined htouched
  obtain ⟨hrobot, since, hreports⟩ := hreport () s₁ s₂ s₃ readSnapshot (step_of_next hlock) hexec
    (by decide) (step_of_next hreturn)
  rw [hnone, List.nil_append] at hreports
  have hlast := ((hreached.step (step_of_next hlock)).execution hexec).step (step_of_next hreturn)
  refine ⟨s, s₃, since, hreached, hlast, hjoined, hrobot, ?_, hreports⟩
  rw [hrobot, hmoved, ControlLoop.state_placed]

end OneCycle

end Controller

end RobotController.System
