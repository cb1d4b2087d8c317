/-
  System/CommunicationEnd.lean --- a communication thread that has been told to end.

  Source: `communication/CanCommunication.cpp` (`run`, `stop`).

  A worker that is alive can always take its next step, whatever the other threads do.
  Once `stop` waits for it, its operations are counted, and so are the accesses within
  each; so it ends after a bounded number of its own steps.
-/
import RobotController.System.CommunicationRestarts

set_option autoImplicit false

namespace RobotController.Communication

/-- The accesses a call has left at most. -/
def CallStage.left : CallStage → Nat
  | .outside => 0
  | .replacing _ _ | .joining _ => 1
  | .assigning _ | .entering => 2
  | .creating | .testing => 3
  | .exchanging | .storing => 4

theorem CommunicationMembers.Advances.left_lt {m m' : CommunicationMembers}
    {stage stage' : CallStage} (h : m.Advances stage m' stage') : stage'.left < stage.left := by
  cases h <;> simp [CallStage.left]

end RobotController.Communication

namespace RobotController.System

open RobotController.Foundation RobotController.Core RobotController.Communication
open RobotController.Control RobotController.Synchronization

/-- Whether an event is a step of worker `i`. -/
def RestartableEvent.isBy {R τ : Type} (i : Nat) : RestartableEvent R τ → Bool
  | .loop j | .published j | .iterate j _ => i == j
  | _ => false

namespace Restartable

/-! ## Between a publication and the state -/

section Handed

variable {R τ : Type} [Double R] [IntConversion R] [DecidableEq τ] {s s' : Restartable R τ}
  {event : RestartableEvent R τ} {i : Nat}

omit [Double R] [IntConversion R] [DecidableEq τ] in
/-- An operation other than the end is that of a worker that is alive. -/
theorem live_of_stage {before : RunStage} (h : s.stage i = some before) (hne : before ≠ .ended) :
    s.communication.members.Live i := ⟨before, h, hne⟩

/-- When a worker has gone on to transmit, its publication is complete. -/
def Handed (s : Restartable R τ) : Prop :=
  ∀ i, s.stage i = some .transmitting → s.places i = .publishing →
    s.controller.commands.isIdle = true

/-- Only the communication thread writes commands. -/
theorem commands_of_step {c c' : Controller R τ} {step : ControllerEvent R τ}
    (hstep : c.Step step c') (hstage : step.stage = none) :
    c'.commands.isIdle = c.commands.isIdle := by
  cases hstep with
  | beginCycle _ _ hbuffer | accessCommand _ hbuffer =>
      rw [SharedBuffer.isIdle, SharedBuffer.isIdle, hbuffer.writer_of_isRead trivial]
  | receiveCommand _ _ _ | writeCommand _ _ => cases hstage
  | _ => rfl

omit [Double R] [IntConversion R] in
/-- The operation a worker is in, before a call of `start` or `stop` goes on. -/
theorem stage_of_call {t : τ} {communication : CommunicationLifecycle τ}
    (hproceed : s.communication.proceed t = some communication)
    (hstage : communication.members.workers[i]? = some .transmitting) :
    s.stage i = some .transmitting := by
  obtain ⟨members, place, hadvances, rfl⟩ := CommunicationLifecycle.proceed_cases hproceed
  generalize s.communication.callers t = before at hadvances
  cases hadvances with
  | create =>
      rcases Nat.lt_or_ge i s.communication.members.workers.length with hlt | hge
      · exact (List.getElem?_append_left hlt).symm.trans hstage
      · rw [List.getElem?_append_right hge] at hstage
        cases hlast : i - s.communication.members.workers.length with
        | zero => simp [hlast] at hstage
        | succ j => simp [hlast] at hstage
  | _ => exact hstage

theorem Handed.step (h : s.Handed) (haligned : s.Aligned) (hstep : s.Step event s') :
    s'.Handed := by
  intro j hj hplace
  cases hstep with
  | program hevent hprogram =>
      rw [commands_of_step hprogram hevent]
      exact h j hj hplace
  | @call event communication _ hseparate =>
      cases event with
      | start t | stop t =>
          obtain ⟨-, rfl⟩ := CommunicationLifecycle.call_cases hseparate.1
          exact h j hj hplace
      | proceed t => exact h j (stage_of_call hseparate.1 hj) hplace
      | work i decoded => contradiction
  | @loop i _ hstage hwork =>
      obtain ⟨members, hmembers, rfl⟩ := Option.map_eq_some_iff.mp hwork
      obtain ⟨before, after, hbefore, hnext, rfl⟩ := CommunicationMembers.work_cases hmembers
      rcases eq_or_ne i j with rfl | hne
      · have hlt := (List.getElem?_eq_some_iff.mp hbefore).choose
        have hafter : after = .transmitting :=
          Option.some.inj ((List.getElem?_set_self hlt).symm.trans hj)
        rcases hstage with hstage | hstage
        · obtain rfl := Option.some.inj (hbefore.symm.trans hstage)
          simp only [RunStage.next, hafter, Option.some.injEq] at hnext
          split at hnext <;> cases hnext
        · obtain rfl := Option.some.inj (hbefore.symm.trans hstage)
          rw [hafter] at hnext
          cases hnext
      · exact h j ((List.getElem?_set_ne hne).symm.trans hj) hplace
  | published _ hidle _ => exact hidle
  | @within i _ before controller hstage hpart hends hprogram =>
      have hlive := live_of_stage hstage (ControllerEvent.ne_ended_of_stage hpart)
      obtain rfl := haligned.separate.consistent.unique (live_of_stage hj (by simp)) hlive
      obtain rfl := Option.some.inj (hstage.symm.trans hj)
      rw [places_after_self] at hplace
      cases hprogram with
      | sample _ _ => cases hplace
      | accessState hlink _ =>
          have hreading : s.places j = .reading := hlink
          cases hreading.symm.trans hplace
      | transmitState _ _ _ _ | transmitNothing _ _ _ => cases hends
      | _ => cases hpart
  | @complete i _ before controller communication hstage hpart hends hprogram hwork =>
      have hlive := live_of_stage hstage (ControllerEvent.ne_ended_of_stage hpart)
      obtain ⟨members, hmembers, rfl⟩ := Option.map_eq_some_iff.mp hwork
      have hback := CommunicationMembers.live_work hmembers (live_of_stage hj (by simp))
      obtain rfl := haligned.separate.consistent.unique hback hlive
      rw [places_after_self] at hplace
      obtain ⟨first, after, hfirst, hnext, rfl⟩ := CommunicationMembers.work_cases hmembers
      obtain rfl := Option.some.inj (hfirst.symm.trans hstage)
      have hlt := (List.getElem?_eq_some_iff.mp hfirst).choose
      have hafter : after = .transmitting :=
        Option.some.inj ((List.getElem?_set_self hlt).symm.trans hj)
      cases hprogram with
      | receiveCommand _ hcommand _ =>
          obtain rfl := Option.some.inj hpart
          have hdecoded : s.controller.receivedCommand.isSome = true := by
            rw [show s.controller.receivedCommand = some _ from hcommand]
            rfl
          rw [hdecoded, hafter] at hnext
          cases hnext
      | receiveOther _ _ => cases hplace
      | transmitState _ _ _ _ | transmitNothing _ _ _ => cases hplace
      | _ => cases hends

end Handed

/-! ## A worker that is alive goes on -/

section Alive

variable {τ : Type} [DecidableEq τ] {communication : CommunicationLifecycle τ} {i : Nat}

/-- Each operation but the end is followed by another. -/
theorem exists_work {before : RunStage} (decoded : Bool)
    (hbefore : communication.members.workers[i]? = some before) (hne : before ≠ .ended) :
    ∃ after, CommunicationLifecycle.Step communication (.work i decoded) after := by
  have hnext : ∃ after, before.next communication.members.running decoded = some after := by
    cases before with
    | ended => exact absurd rfl hne
    | _ => exact ⟨_, rfl⟩
  obtain ⟨after, hnext⟩ := hnext
  have hwork : communication.members.work i decoded =
      some { communication.members with
        workers := communication.members.workers.set i after } := by
    rw [CommunicationMembers.work, hbefore, Option.bind_eq_bind, Option.bind_some, hnext]
    rfl
  exact ⟨_, Option.map_eq_some_iff.mpr ⟨_, hwork, rfl⟩⟩

variable {K : Type} [Field K] [LinearOrder K] [IsStrictOrderedRing K] [FloorRing K]
  {s : Restartable K τ}

/-- Whatever the others do, a worker that is alive can take a step. -/
theorem exists_step_of_live (hs : s.controller.ReachedFromNew) (haligned : s.Aligned)
    (hhanded : s.Handed) (hlive : s.communication.members.Live i) :
    ∃ event s', event.isBy i = true ∧ s.Step event s' := by
  obtain ⟨stage, hstage, hne⟩ := hlive
  have hfits := haligned.places i
  rw [show s.stage i = some stage from hstage] at hfits
  have hlink := haligned.alive i ⟨stage, hstage, hne⟩
  have hseen := haligned.seenBy_eq ⟨stage, hstage, hne⟩
  cases stage with
  | ended => exact absurd rfl hne
  | checking =>
      obtain ⟨after, hwork⟩ := exists_work false hstage (by simp)
      exact ⟨.loop i, _, by simp [RestartableEvent.isBy], .loop (.inl hstage) hwork⟩
  | sleeping =>
      obtain ⟨after, hwork⟩ := exists_work false hstage (by simp)
      exact ⟨.loop i, _, by simp [RestartableEvent.isBy], .loop (.inr hstage) hwork⟩
  | receiving =>
      obtain ⟨event, controller, hbegins, hstep⟩ :=
        Controller.exists_begin .iteration hs.reached (hlink.trans hfits)
      obtain rfl : event = .receive := by
        cases event <;> first | rfl | cases hbegins
      obtain ⟨after, hwork⟩ := exists_work s.controller.receivedCommand.isSome hstage (by simp)
      exact ⟨.iterate i .receive, _, by simp [RestartableEvent.isBy],
        .complete hstage rfl rfl (hseen.symm ▸ hstep) hwork⟩
  | publishing =>
      cases hidle : s.controller.commands.isIdle with
      | true =>
          obtain ⟨after, hwork⟩ := exists_work false hstage (by simp)
          exact ⟨.published i, _, by simp [RestartableEvent.isBy], .published hstage hidle hwork⟩
      | false =>
          obtain ⟨commands, hbuffer⟩ := SharedBuffer.exists_write hidle
          have hstep := Controller.Step.writeCommand (hlink.trans hfits) hbuffer
          exact ⟨.iterate i .writeCommand, _, by simp [RestartableEvent.isBy],
            .within hstage rfl rfl (hseen.symm ▸ hstep)⟩
  | transmitting =>
      have hopen : s.controller.link ≠ .receiving := hlink ▸ hfits
      obtain ⟨event, controller, hcontinues, hstep⟩ :=
        Controller.exists_continue_iteration hs hopen
      obtain ⟨after, hwork⟩ := exists_work s.controller.receivedCommand.isSome hstage (by simp)
      have hwithin : event.stage = some .transmitting → event.endsStage = false →
          ∃ event s', event.isBy i = true ∧ s.Step event s' := fun hpart hends =>
        ⟨.iterate i event, _, by simp [RestartableEvent.isBy],
          .within hstage hpart hends (hseen.symm ▸ hstep)⟩
      have hcomplete : event.stage = some .transmitting → event.endsStage = true →
          ∃ event s', event.isBy i = true ∧ s.Step event s' := fun hpart hends =>
        ⟨.iterate i event, _, by simp [RestartableEvent.isBy],
          .complete hstage hpart hends (hseen.symm ▸ hstep) hwork⟩
      cases hstep with
      | writeCommand hwriting hbuffer =>
          have hidle := hhanded i hstage (hlink.symm.trans hwriting)
          rw [hbuffer.not_idle_of_write] at hidle
          cases hidle
      | sample _ _ | accessState _ _ => exact hwithin rfl rfl
      | transmitState _ _ _ _ | transmitNothing _ _ _ => exact hcomplete rfl rfl
      | _ => cases hcontinues

end Alive

/-! ## A worker that has been told to end -/

section Ending

variable {R τ : Type} [Double R] [IntConversion R] [DecidableEq τ] {s s' : Restartable R τ}
  {event : RestartableEvent R τ} {i k : Nat} {t : τ}

/-- So many steps suffice for worker `i` to end, once it has been told to: an operation
takes no more than twenty. -/
def EndDue (i : Nat) (s : Restartable R τ) (k : Nat) : Prop :=
  s.communication.members.Live i → ∃ left, s.controller.IterationDue left ∧
    20 * s.communication.members.remaining i + left ≤ k

/-- A worker has few operations left. -/
theorem exists_endDue (hs : s.controller.Reached) (i : Nat) : ∃ k, EndDue i s k ∧ k ≤ 117 := by
  obtain ⟨left, hdue, hle⟩ := hs.exists_due_le .iteration
  have hremaining : s.communication.members.remaining i ≤ 5 := by
    rw [CommunicationMembers.remaining]
    cases s.communication.members.workers[i]? with
    | none => simp
    | some stage => cases stage <;> simp [RunStage.remaining]
  have hlimit : (Passage.iteration : Passage τ).limit = 17 := rfl
  exact ⟨_, fun _ => ⟨left, hdue, le_rfl⟩, by omega⟩

omit [Double R] [IntConversion R] [DecidableEq τ] in
theorem live_iff_remaining :
    s.communication.members.Live i ↔ 0 < s.communication.members.remaining i := by
  unfold CommunicationMembers.Live CommunicationMembers.remaining
  cases s.communication.members.workers[i]? with
  | none => simp
  | some stage => cases stage <;> simp [RunStage.remaining]

omit [Double R] [IntConversion R] in
/-- The steps of the other threads begin no iteration. -/
theorem brings_of_stage {step : ControllerEvent R τ} (h : step.stage = none) :
    Passage.iteration.brings step = 0 := by
  cases step <;> first | rfl | cases h

omit [Double R] [IntConversion R] in
theorem brings_le (step : ControllerEvent R τ) : Passage.iteration.brings step ≤ 17 := by
  unfold Passage.brings
  split
  · exact le_rfl
  · exact Nat.zero_le _

omit [Double R] [IntConversion R] in
theorem continues_of_stage {step : ControllerEvent R τ} {before : RunStage}
    (h : step.stage = some before) (hends : step.endsStage = false) :
    Passage.iteration.continues step = true := by
  cases step <;> first | rfl | contradiction

/-- The steps of a worker are its operations. -/
theorem live_of_isBy (hstep : s.Step event s') (hevent : event.isBy i = true) :
    s.communication.members.Live i := by
  cases hstep with
  | program _ _ | call _ _ => cases hevent
  | loop hstage _ =>
      obtain rfl : i = _ := by simpa [RestartableEvent.isBy] using hevent
      rcases hstage with hstage | hstage
      · exact live_of_stage hstage (by simp)
      · exact live_of_stage hstage (by simp)
  | published hstage _ _ =>
      obtain rfl : i = _ := by simpa [RestartableEvent.isBy] using hevent
      exact live_of_stage hstage (by simp)
  | within hstage hpart _ _ | complete hstage hpart _ _ _ =>
      obtain rfl : i = _ := by simpa [RestartableEvent.isBy] using hevent
      exact live_of_stage hstage (ControllerEvent.ne_ended_of_stage hpart)

/-- A step of the worker completes one of its operations, or one of the accesses within. -/
theorem iterationDue_of_step {left : Nat} (haligned : s.Aligned)
    (hending : CommunicationLifecycle.Ending t i s.communication)
    (hlive : s.communication.members.Live i) (hdue : s.controller.IterationDue left)
    (hstep : s.Step event s') :
    ∃ left', s'.controller.IterationDue left' ∧
      20 * s'.communication.members.remaining i + left' +
          (if event.isBy i = true then 1 else 0) ≤
        20 * s.communication.members.remaining i + left := by
  have hwork : ∀ {j : Nat} {decoded : Bool} {communication : CommunicationLifecycle τ},
      CommunicationLifecycle.Step s.communication (.work j decoded) communication →
        (if i = j then 1 else 0) + communication.members.remaining i ≤
          s.communication.members.remaining i := by
    intro j decoded communication hwork
    obtain ⟨members, hmembers, rfl⟩ := Option.map_eq_some_iff.mp hwork
    exact (hending.work hmembers).2
  cases hstep with
  | program hpart hprogram =>
      obtain ⟨left', hdue', hle⟩ := Controller.amortizes_iteration _ _ _ left hdue hprogram
      have hbrings := brings_of_stage hpart
      refine ⟨left', hdue', ?_⟩
      simp only [RestartableEvent.isBy, Bool.false_eq_true, if_false]
      omega
  | call hcall hseparate =>
      obtain ⟨-, hle⟩ := hending.step hseparate
      refine ⟨left, hdue, ?_⟩
      simp only [RestartableEvent.isBy, Bool.false_eq_true, if_false]
      omega
  | loop _ hloop | published _ _ hloop =>
      have hle := hwork hloop
      refine ⟨left, hdue, ?_⟩
      simp only [RestartableEvent.isBy, beq_iff_eq]
      split_ifs at hle ⊢ <;> omega
  | @within j _ _ _ hstage hpart hends hprogram =>
      have hother := live_of_stage hstage (ControllerEvent.ne_ended_of_stage hpart)
      obtain rfl := haligned.separate.consistent.unique hlive hother
      rw [haligned.seenBy_eq hlive] at hprogram
      obtain ⟨left', hdue', hle⟩ := Controller.amortizes_iteration _ _ _ left hdue hprogram
      obtain ⟨hbrings, hspends⟩ := Passage.brings_of_continues (p := Passage.iteration) _
        (continues_of_stage hpart hends)
      refine ⟨left', hdue', ?_⟩
      simp only [after, RestartableEvent.isBy, beq_self_eq_true, if_true]
      omega
  | @complete j step _ _ _ hstage hpart hends hprogram hcomplete =>
      have hother := live_of_stage hstage (ControllerEvent.ne_ended_of_stage hpart)
      obtain rfl := haligned.separate.consistent.unique hlive hother
      rw [haligned.seenBy_eq hlive] at hprogram
      obtain ⟨left', hdue', hle⟩ := Controller.amortizes_iteration _ _ _ left hdue hprogram
      have hbrings := brings_le step
      have hless := hwork hcomplete
      refine ⟨left', hdue', ?_⟩
      simp only [after, RestartableEvent.isBy, beq_self_eq_true, if_true] at hless ⊢
      omega

/-- Every step of the worker is one less, and no other step is one more. -/
theorem EndDue.step (h : EndDue i s k) (haligned : s.Aligned)
    (hending : CommunicationLifecycle.Ending t i s.communication) (hstep : s.Step event s') :
    ∃ k', EndDue i s' k' ∧ k' + (if event.isBy i = true then 1 else 0) ≤ k := by
  by_cases hlive : s.communication.members.Live i
  · obtain ⟨left, hdue, hle⟩ := h hlive
    obtain ⟨left', hdue', hless⟩ := iterationDue_of_step haligned hending hlive hdue hstep
    exact ⟨_, fun _ => ⟨left', hdue', le_rfl⟩, hless.trans hle⟩
  · have hother : event.isBy i = false :=
      Bool.eq_false_iff.mpr fun hevent => hlive (live_of_isBy hstep hevent)
    have hnone : s'.communication.members.remaining i = 0 := by
      rw [live_iff_remaining, Nat.not_lt, Nat.le_zero] at hlive
      rcases communication_cases hstep with hsame | ⟨access, haccess⟩
      · rw [hsame, hlive]
      · have hle := (hending.step haccess).2
        omega
    refine ⟨0, fun hlive' => ?_, by simp [hother]⟩
    rw [live_iff_remaining, hnone] at hlive'
    exact absurd hlive' (Nat.lt_irrefl 0)

/-- Between the calls of `start` and `stop` no worker is created. -/
theorem live_of_step (hstep : s.Step event s') (hcall : ∀ access, event ≠ .call access)
    (hlive : s'.communication.members.Live i) : s.communication.members.Live i := by
  have hwork : ∀ {j : Nat} {decoded : Bool} {communication : CommunicationLifecycle τ},
      CommunicationLifecycle.Step s.communication (.work j decoded) communication →
        communication.members.Live i → s.communication.members.Live i := by
    intro j decoded communication hwork
    obtain ⟨members, hmembers, rfl⟩ := Option.map_eq_some_iff.mp hwork
    exact CommunicationMembers.live_work hmembers
  cases hstep with
  | program _ _ | within _ _ _ _ => exact hlive
  | call _ _ => exact absurd rfl (hcall _)
  | loop _ hloop | published _ _ hloop | complete _ _ _ _ hloop => exact hwork hloop hlive

/-- Who waits for a worker goes on waiting for it. -/
theorem ending_of_step (hending : CommunicationLifecycle.Ending t i s.communication)
    (hstep : s.Step event s') : CommunicationLifecycle.Ending t i s'.communication := by
  rcases communication_cases hstep with hsame | ⟨access, haccess⟩
  · exact hsame ▸ hending
  · exact (hending.step haccess).1

end Ending

end Restartable

end RobotController.System
