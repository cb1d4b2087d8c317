/-
  Control/LifecycleSafety.lean --- what callers of `run`, `wait` and `requestStop`
  can rely on.

  Sources: `control/ControlLoop.cpp`, and the section on threading of `README.md`.
-/
import RobotController.Control.LifecycleInvariant
import Mathlib.Algebra.Group.Nat.Defs

set_option autoImplicit false

namespace RobotController.Control

open RobotController.Foundation

namespace Lifecycle

variable {τ : Type}

/-! ## The cycle count -/

/-- As long as `measured_cycles_` has not overflowed, the cycle count has grown by
the cycles of the latest worker. -/
theorem Orderly.completedCycles_eq {s : Lifecycle τ} (h : s.Orderly) {i : Nat} {w : Worker}
    (hw : s.members.workers[i]? = some w) (hlatest : i + 1 = s.members.workers.length)
    (hcount : s.members.measuredCycles < 2 ^ 31) :
    s.completedCycles = w.startCount.toInt + w.executed := by
  have haccounted := h.consistent.worker i w hw
  have hcounted := haccounted.counted
  have hmeasured := congrArg BitVec.toNat h.consistent.measured
  have hgrowth := congrArg BitVec.toNat (haccounted.growth hlatest)
  rw [BitVec.toNat_ofNat] at hmeasured
  rw [BitVec.toNat_add, BitVec.toNat_ofNat] at hgrowth
  have hstart := w.startCount.isLt
  have hnow : s.completedCycles = s.members.completedCycles.toNat :=
    BitVec.toInt_eq_toNat_of_lt (by omega)
  have hthen : w.startCount.toInt = w.startCount.toNat :=
    BitVec.toInt_eq_toNat_of_lt (by omega)
  rw [hnow, hthen]
  omega

variable [DecidableEq τ] {s s' : Lifecycle τ} {t : τ}

/-- Worker `i` will execute at most `bound` cycles: it is committed to no more, and
while it is alive the flag is up. -/
def Halting (i bound : Nat) (s : Lifecycle τ) : Prop :=
  ∃ w, s.members.workers[i]? = some w ∧ w.committed ≤ bound ∧
    (w.joined = false → s.members.stopRequested = true)

/-- Nothing lowers the flag while a worker is alive. -/
theorem Halting.step {i bound : Nat} {event : LifecycleEvent τ} (h : Halting i bound s)
    (horderly : s.Orderly) (hstep : Step s event s') : Halting i bound s' := by
  obtain ⟨w, hw, hbound, hflag⟩ := h
  cases event with
  | call t caller =>
      obtain rfl := call_cases hstep
      exact ⟨w, hw, hbound, hflag⟩
  | requestStop =>
      obtain rfl := Option.some.inj hstep
      exact ⟨w, hw, hbound, fun _ => rfl⟩
  | acquire t =>
      obtain ⟨c, -, -, rfl⟩ := acquire_cases hstep
      exact ⟨w, hw, hbound, hflag⟩
  | proceed t =>
      obtain ⟨c, untouched, m', c', hmutex, hadvances, rfl⟩ := proceed_cases hstep
      obtain ⟨stopToken, joined, hjoined, hw'⟩ := Members.worker_of_advance hadvances hw
      refine ⟨_, hw', hbound, fun halive => ?_⟩
      have hcritical : s.critical = some c := by simp [critical, hmutex]
      rcases Members.stopRequested_of_advance hadvances with hsame | ⟨n, rfl⟩
      · exact hsame.trans (hflag (hjoined halive))
      · have hidle := (horderly.consistent.place _ hcritical).1
        have hended := horderly.consistent.joined (horderly.consistent.idle hidle) hw
        simp [hjoined halive] at hended
  | release t =>
      obtain ⟨c, untouched, -, ⟨n, found, worker, -, rfl⟩ | ⟨-, rfl⟩⟩ := release_cases hstep
      · exact ⟨w, hw, hbound, hflag⟩
      · exact ⟨w, hw, hbound, hflag⟩
  | work j =>
      obtain ⟨m', hm, rfl⟩ := Option.map_eq_some_iff.mp hstep
      obtain ⟨-, -, -, -, -, -, hstop, -⟩ := Members.work_cases hm
      obtain ⟨w', hw', ⟨-, rfl⟩ | ⟨-, hnext⟩⟩ := Members.worker_of_work hm hw
      · exact ⟨w', hw', hbound, fun halive => hstop.trans (hflag halive)⟩
      · have hjoined := (Worker.next_frame hnext).2.1
        have halive : w.joined = false := by
          by_contra hne
          exact Worker.stage_ne_ended hnext
            ((horderly.consistent.worker i w hw).ended (by simpa using hne))
        rw [hflag halive] at hnext
        exact ⟨w', hw', Nat.le_trans (Worker.committed_next hnext) hbound,
          fun _ => hstop.trans (hflag halive)⟩

/-- A run for `n` cycles has cleared the flag after `clearedAt` requests and is about
to create worker `i`, or has created it. -/
def Underway (i clearedAt : Nat) (n : Int) (s : Lifecycle τ) : Prop :=
  (s.members.workers.length = i ∧
      (s.critical = some (.runCleared n clearedAt) ∨
        s.critical = some (.runMarked n clearedAt))) ∨
    ∃ w, s.members.workers[i]? = some w ∧ w.cycleCount = n ∧ w.clearedAt = clearedAt

theorem Underway.step {i clearedAt : Nat} {n : Int} {event : LifecycleEvent τ}
    (h : Underway i clearedAt n s) (hstep : Step s event s') : Underway i clearedAt n s' := by
  cases event with
  | call t caller =>
      obtain rfl := call_cases hstep
      exact h
  | requestStop =>
      obtain rfl := Option.some.inj hstep
      exact h
  | acquire t =>
      obtain ⟨c, hmutex, -, rfl⟩ := acquire_cases hstep
      rcases h with ⟨-, hplace⟩ | hworker
      · simp [critical, hmutex] at hplace
      · exact .inr hworker
  | proceed t =>
      obtain ⟨c, untouched, m', c', hmutex, hadvances, rfl⟩ := proceed_cases hstep
      rcases h with ⟨rfl, hplace⟩ | ⟨w, hw, hn, hcleared⟩
      · simp only [critical, hmutex, Option.map_some, Option.some.injEq] at hplace
        rcases hplace with rfl | rfl <;> cases hadvances
        · exact .inl ⟨rfl, .inr rfl⟩
        · exact .inr ⟨_, List.getElem?_concat_length, rfl, rfl⟩
      · obtain ⟨stopToken, joined, -, hw'⟩ := Members.worker_of_advance hadvances hw
        exact .inr ⟨_, hw', hn, hcleared⟩
  | release t =>
      obtain ⟨c, untouched, hmutex, hcases⟩ := release_cases hstep
      rcases h with ⟨-, hplace⟩ | hworker
      · simp only [critical, hmutex, Option.map_some, Option.some.injEq] at hplace
        rcases hcases with ⟨m, found, worker, rfl, -⟩ | ⟨rfl, -⟩ <;> simp at hplace
      · rcases hcases with ⟨m, found, worker, -, rfl⟩ | ⟨-, rfl⟩ <;> exact .inr hworker
  | work j =>
      obtain ⟨m', hm, rfl⟩ := Option.map_eq_some_iff.mp hstep
      obtain ⟨v, v', -, -, hworkers, -⟩ := Members.work_cases hm
      rcases h with ⟨rfl, hplace⟩ | ⟨w, hw, hn, hcleared⟩
      · exact .inl ⟨by rw [hworkers, List.length_set], hplace⟩
      · obtain ⟨w', hw', ⟨-, rfl⟩ | ⟨-, hnext⟩⟩ := Members.worker_of_work hm hw
        · exact .inr ⟨w', hw', hn, hcleared⟩
        · obtain ⟨hcycles, -, -, hkept, -⟩ := Worker.next_frame hnext
          exact .inr ⟨w', hw', hcycles.trans hn, hkept.trans hcleared⟩

/-- Only `requestStop` counts as a request. -/
theorem requests_of_step {event : LifecycleEvent τ} (h : Step s event s')
    (hother : event ≠ .requestStop) : s'.requests = s.requests := by
  cases event with
  | call t caller =>
      obtain rfl := call_cases h
      rfl
  | requestStop => exact absurd rfl hother
  | acquire t =>
      obtain ⟨c, -, -, rfl⟩ := acquire_cases h
      rfl
  | proceed t =>
      obtain ⟨c, untouched, m', c', -, -, rfl⟩ := proceed_cases h
      rfl
  | release t =>
      obtain ⟨c, untouched, -, ⟨n, found, worker, -, rfl⟩ | ⟨-, rfl⟩⟩ := release_cases h <;> rfl
  | work j =>
      obtain ⟨m', -, rfl⟩ := Option.map_eq_some_iff.mp h
      rfl

theorem requests_of_execution {trace : List (LifecycleEvent τ)}
    (h : Execution Step s trace s') (hnone : .requestStop ∉ trace) :
    s'.requests = s.requests := by
  have hkeeps : ∀ (a : Lifecycle τ) (event : LifecycleEvent τ) (b : Lifecycle τ),
      event ≠ .requestStop → a.requests = s.requests → Step a event b →
        b.requests = s.requests :=
    fun _ _ _ hother hsame hstep => (requests_of_step hstep hother).trans hsame
  have hall : ∀ event ∈ trace, event ≠ .requestStop := fun event hmem heq => hnone (heq ▸ hmem)
  have hsame := h.keeps_of_forall hkeeps hall rfl
  exact hsame

/-- No stop request is lost or carried over.  Once `requestStop` has taken effect, a
worker that exists executes at most one more cycle, whatever else is called.  From
the moment an accepted run clears the flag, the requests before it are forgotten: its
worker leaves the loop early only on a later one. -/
theorem stop_neither_lost_nor_kept (hs : s.Reached) :
    (∀ (s₁ s₂ : Lifecycle τ) (trace : List (LifecycleEvent τ)) (i : Nat) (w : Worker),
        Step s .requestStop s₁ → Execution Step s₁ trace s₂ → s.members.workers[i]? = some w →
          ∃ w', s₂.members.workers[i]? = some w' ∧ w'.executed ≤ w.executed + 1) ∧
      ∀ (t : τ) (n : Int) (s₁ s₂ : Lifecycle τ) (trace : List (LifecycleEvent τ)) (w : Worker),
        s.critical = some (.runAdmitted n) → Step s (.proceed t) s₁ →
          Execution Step s₁ trace s₂ →
          s₂.members.workers[s.members.workers.length]? = some w →
            w.cycleCount = n ∧
              (w.PastLoop → (w.executed : Int) = n ∨ s.requests < w.lastCheck) ∧
              (w.PastLoop → .requestStop ∉ trace → (w.executed : Int) = n) := by
  refine ⟨fun s₁ s₂ trace i w hstop hexec hw => ?_,
    fun t n s₁ s₂ trace w hplace hclear hexec hw => ?_⟩
  · have hkeeps : ∀ (a : Lifecycle τ) (event : LifecycleEvent τ) (b : Lifecycle τ),
        a.Orderly ∧ Halting i (w.executed + 1) a → Step a event b →
          b.Orderly ∧ Halting i (w.executed + 1) b :=
      fun a event b h hstep => ⟨h.1.step hstep, h.2.step h.1 hstep⟩
    have hstart : s₁.Orderly ∧ Halting i (w.executed + 1) s₁ := by
      refine ⟨hs.orderly.step hstop, ?_⟩
      obtain rfl := Option.some.inj hstop
      exact ⟨w, hw, w.committed_le, fun _ => rfl⟩
    obtain ⟨-, w', hw', hbound, -⟩ := hexec.keeps hkeeps hstart
    exact ⟨w', hw', Nat.le_trans w'.executed_le_committed hbound⟩
  · have hreached := (hs.step hclear).execution hexec
    obtain ⟨c, untouched, m', c', hmutex, hadvances, rfl⟩ := proceed_cases hclear
    obtain rfl : .runAdmitted n = c := by simpa [critical, hmutex] using hplace.symm
    cases hadvances
    have hkeeps : ∀ (a : Lifecycle τ) (event : LifecycleEvent τ) (b : Lifecycle τ),
        Underway s.members.workers.length s.requests n a → Step a event b →
          Underway s.members.workers.length s.requests n b :=
      fun _ _ _ => Underway.step
    have hunderway := hexec.keeps hkeeps (.inl ⟨rfl, .inl rfl⟩)
    have haccounted := (Reached.orderly hreached).consistent.worker _ w hw
    rcases hunderway with ⟨hlength, -⟩ | ⟨v, hv, hn, hcleared⟩
    · simp [← hlength] at hw
    obtain rfl : w = v := by simpa [hw] using hv
    have hpast := haccounted.sound.pastLoop
    rw [hn, hcleared] at hpast
    refine ⟨hn, hpast, fun hleft hnone => (hpast hleft).resolve_right ?_⟩
    have hsame := requests_of_execution hexec hnone
    have hle := haccounted.lastCheck_le
    simp only at hsame
    omega

/-- A stop after the first of two cycles, and a stop before a run of one cycle. -/
theorem stop_neither_lost_nor_kept_unit :
    (∃ (s s₁ s₂ : Lifecycle Unit) (trace : List (LifecycleEvent Unit)) (w w' : Worker),
        s.Reached ∧ Step s .requestStop s₁ ∧ Execution Step s₁ trace s₂ ∧
          s.members.workers[0]? = some w ∧ s₂.members.workers[0]? = some w' ∧
          w.cycleCount = 2 ∧ w'.PastLoop ∧ w'.executed ≤ w.executed + 1) ∧
      ∃ (s s₁ s₂ : Lifecycle Unit) (trace : List (LifecycleEvent Unit)) (w : Worker),
        s.Reached ∧ s.members.stopRequested = true ∧ Step s (.proceed ()) s₁ ∧
          Execution Step s₁ trace s₂ ∧ s₂.members.workers[0]? = some w ∧ w.PastLoop ∧
          (w.executed : Int) = 1 := by
  constructor
  · have hrun : ∃ s s₁ s₂ : Lifecycle Unit,
        (runEvents () 2 ++ workEvents 4).foldlM next initial = some s ∧
        Step s .requestStop s₁ ∧ (workEvents 3).foldlM next s₁ = some s₂ ∧
        ∃ w w', s.members.workers[0]? = some w ∧ w.cycleCount = 2 ∧
          s₂.members.workers[0]? = some w' ∧ w'.stage = .ended :=
      ⟨_, _, _, rfl, rfl, rfl, _, _, rfl, rfl, rfl, rfl⟩
    obtain ⟨s, s₁, s₂, hs, hstop, hrest, w, w', hw, hcycles, hw', hended⟩ := hrun
    have hreached := reached_of_schedule _ hs
    have hexec := Execution.of_schedule (fun _ _ _ => id) _ hrest
    obtain ⟨v, hv, hbound⟩ :=
      (stop_neither_lost_nor_kept hreached).1 s₁ s₂ _ 0 w hstop hexec hw
    obtain rfl : w' = v := by simpa [hw'] using hv
    exact ⟨s, s₁, s₂, _, w, w', hreached, hstop, hexec, hw, hw', hcycles, .inr hended, hbound⟩
  · have hrun : ∃ s s₁ s₂ : Lifecycle Unit,
        [.requestStop, .call () (.wantsRun 1), .acquire (), .proceed ()].foldlM next initial =
          some s ∧
        s.members.stopRequested = true ∧ s.critical = some (.runAdmitted 1) ∧
        s.members.workers.length = 0 ∧ Step s (.proceed ()) s₁ ∧
        (.proceed () :: .proceed () :: .proceed () :: workEvents 4).foldlM next s₁ =
          some s₂ ∧
        ∃ w, s₂.members.workers[0]? = some w ∧ w.stage = .finishing :=
      ⟨_, _, _, rfl, rfl, rfl, rfl, rfl, rfl, _, rfl, rfl⟩
    obtain ⟨s, s₁, s₂, hs, hflag, hplace, hlength, hclear, hrest, w, hw, hstage⟩ := hrun
    have hreached := reached_of_schedule _ hs
    have hexec := Execution.of_schedule (fun _ _ _ => id) _ hrest
    obtain ⟨-, -, hall⟩ := (stop_neither_lost_nor_kept hreached).2 () 1 s₁ s₂ _ w hplace hclear
      hexec (by rwa [hlength])
    exact ⟨s, s₁, s₂, _, w, hreached, hflag, hclear, hexec, hw, .inl hstage,
      hall (.inl hstage) (by decide)⟩

end Lifecycle

end RobotController.Control
