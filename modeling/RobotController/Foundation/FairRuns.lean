/-
  Foundation/FairRuns.lean --- what fair runs come to.

  A run goes on for ever; at each moment one thread takes a step, or none does.  It is fair
  if no thread that could take a step from some moment on is passed over for good.  Two
  rules show what fair runs come to: a step that one thread can take until it does is taken,
  and what is approached again and again, by a rank that cannot fall for ever, is attained.
-/
import RobotController.Foundation.Execution
import Mathlib.Order.WellFounded

set_option autoImplicit false

namespace RobotController.Foundation

variable {σ α θ : Type} {Step : σ → α → σ → Prop} {owner : α → θ}

/-- A run that goes on for ever, with a step or none at each moment. -/
structure Run (Step : σ → α → σ → Prop) where
  state : Nat → σ
  event : Nat → Option α
  steps : ∀ i,
    (event i).elim (state (i + 1) = state i) fun a => Step (state i) a (state (i + 1))

/-- A thread can take a step. -/
def Enabled (Step : σ → α → σ → Prop) (owner : α → θ) (thread : θ) (s : σ) : Prop :=
  ∃ a t, owner a = thread ∧ Step s a t

namespace Run

/-- Again and again each thread takes a step or can take none. -/
def Fair (run : Run Step) (owner : α → θ) : Prop :=
  ∀ thread i, ∃ j, i ≤ j ∧
    ((run.event j).map owner = some thread ∨ ¬ Enabled Step owner thread (run.state j))

/-- Where the one holds, the other holds then or later. -/
def LeadsTo (run : Run Step) (P Q : σ → Prop) : Prop :=
  ∀ i, P (run.state i) → ∃ j, i ≤ j ∧ Q (run.state j)

variable {run : Run Step} {P Q S : σ → Prop}

/-- A moment at which nobody takes a step changes nothing. -/
theorem step_cases (run : Run Step) (i : Nat) :
    run.event i = none ∧ run.state (i + 1) = run.state i ∨
      ∃ a, run.event i = some a ∧ Step (run.state i) a (run.state (i + 1)) := by
  have hstep := run.steps i
  cases hevent : run.event i with
  | none =>
      rw [hevent] at hstep
      exact .inl ⟨rfl, hstep⟩
  | some a =>
      rw [hevent] at hstep
      exact .inr ⟨a, rfl, hstep⟩

/-- What holds at the start and is kept by every step holds at every moment. -/
theorem always (Inv : σ → Prop) (hinit : Inv (run.state 0))
    (hstep : ∀ s a t, Inv s → Step s a t → Inv t) (i : Nat) : Inv (run.state i) := by
  induction i with
  | zero => exact hinit
  | succ i ih =>
      rcases run.step_cases i with ⟨-, hsame⟩ | ⟨a, -, hnext⟩
      · exact hsame ▸ ih
      · exact hstep _ a _ ih hnext

theorem LeadsTo.trans (hfirst : run.LeadsTo P Q) (hsecond : run.LeadsTo Q S) :
    run.LeadsTo P S := by
  intro i hi
  obtain ⟨j, hij, hj⟩ := hfirst i hi
  obtain ⟨k, hjk, hk⟩ := hsecond j hj
  exact ⟨k, hij.trans hjk, hk⟩

/-- A step that one thread can take until it does is taken. -/
theorem LeadsTo.of_step (thread : θ) (hfair : run.Fair owner)
    (henabled : ∀ s, P s → Enabled Step owner thread s)
    (hstep : ∀ s a t, P s → Step s a t → Q t ∨ P t ∧ owner a ≠ thread) : run.LeadsTo P Q := by
  intro i hi
  obtain ⟨j, hij, hj⟩ := hfair thread i
  obtain ⟨d, rfl⟩ := Nat.exists_eq_add_of_le hij
  clear hij
  -- by the `d`th moment from here the thread has taken a step
  induction d generalizing i with
  | zero =>
      rcases hj with hown | hdisabled
      · obtain ⟨a, hevent, hthread⟩ := Option.map_eq_some_iff.mp hown
        rcases run.step_cases i with ⟨hnone, -⟩ | ⟨b, hevent', hnext⟩
        · rw [Nat.add_zero, hnone] at hevent
          cases hevent
        · obtain rfl := Option.some.inj (hevent.symm.trans hevent')
          rcases hstep _ a _ hi hnext with hgoal | ⟨-, hother⟩
          · exact ⟨i + 1, Nat.le_succ i, hgoal⟩
          · exact absurd hthread hother
      · exact absurd (henabled _ hi) hdisabled
  | succ d ih =>
      rw [show i + (d + 1) = i + 1 + d by omega] at hj
      have hlater : P (run.state (i + 1)) → ∃ j, i ≤ j ∧ Q (run.state j) := by
        intro hnext
        obtain ⟨k, hik, hk⟩ := ih (i + 1) hnext hj
        exact ⟨k, (Nat.le_succ i).trans hik, hk⟩
      rcases run.step_cases i with ⟨-, hsame⟩ | ⟨a, -, hnext⟩
      · exact hlater (hsame ▸ hi)
      · rcases hstep _ a _ hi hnext with hgoal | ⟨hkept, -⟩
        · exact ⟨i + 1, Nat.le_succ i, hgoal⟩
        · exact hlater hkept

section Rank

variable {ι : Type} [LT ι] [WellFoundedLT ι] {Rank : ι → σ → Prop}

/-- What is approached again and again is attained. -/
theorem LeadsTo.of_rank
    (h : ∀ k, run.LeadsTo (Rank k) fun s => Q s ∨ ∃ k' < k, Rank k' s) :
    run.LeadsTo (fun s => ∃ k, Rank k s) Q := by
  rintro i ⟨k, hk⟩
  induction k using WellFoundedLT.induction generalizing i with
  | ind k ih =>
      obtain ⟨j, hij, hgoal | ⟨k', hlower, hk'⟩⟩ := h k i hk
      · exact ⟨j, hij, hgoal⟩
      · obtain ⟨m, hjm, hm⟩ := ih k' hlower j hk'
        exact ⟨m, hij.trans hjm, hm⟩

end Rank

/-- A thread that can always take a step attains what its steps count down to and the others
do not put off. -/
theorem LeadsTo.of_countdown {Due : Nat → σ → Prop} (thread : θ) (hfair : run.Fair owner)
    (henabled : ∀ s k, Due k s → Enabled Step owner thread s)
    (hstep : ∀ s k a t, Due k s → Step s a t →
      Q t ∨ ∃ k', Due k' t ∧ k' ≤ k ∧ (owner a = thread → k' < k)) :
    run.LeadsTo (fun s => ∃ k, Due k s) Q := by
  refine .of_rank fun k => .of_step thread hfair (fun s hs => henabled s k hs) ?_
  intro s a t hs hnext
  rcases hstep s k a t hs hnext with hgoal | ⟨k', hdue, hle, howner⟩
  · exact .inl (.inl hgoal)
  · rcases Nat.lt_or_eq_of_le hle with hlower | rfl
    · exact .inl (.inr ⟨k', hlower, hdue⟩)
    · exact .inr ⟨hdue, fun hown => absurd (howner hown) (Nat.lt_irrefl k')⟩

/-- What an execution passes through and then stays in is a run. -/
theorem exists_of_execution {s t : σ} {trace : List α} (hexec : Execution Step s trace t) :
    ∃ (run : Run Step) (k : Nat), run.state 0 = s ∧ ∀ i, k ≤ i → run.state i = t := by
  induction hexec with
  | refl s => exact ⟨⟨fun _ => s, fun _ => none, fun _ => rfl⟩, 0, rfl, fun _ _ => rfl⟩
  | @cons s mid t a rest hstep _ ih =>
      obtain ⟨run, k, rfl, hstays⟩ := ih
      let state : Nat → σ := fun i => i.casesOn s run.state
      let event : Nat → Option α := fun i => i.casesOn (some a) run.event
      refine ⟨⟨state, event, fun i => ?_⟩, k + 1, rfl, fun i hi => ?_⟩
      · cases i with
        | zero => exact hstep
        | succ i => exact run.steps i
      · cases i with
        | zero => exact absurd hi (Nat.not_succ_le_zero k)
        | succ i => exact hstays i (Nat.le_of_succ_le_succ hi)

/-- A run that comes to rest where nothing is possible is fair. -/
theorem exists_fair {s t : σ} {trace : List α} (hexec : Execution Step s trace t)
    (hrest : ∀ a u, ¬ Step t a u) (owner : α → θ) :
    ∃ run : Run Step, run.state 0 = s ∧ run.Fair owner := by
  obtain ⟨run, k, hstart, hstays⟩ := exists_of_execution hexec
  refine ⟨run, hstart, fun thread i => ⟨max i k, le_max_left i k, .inr ?_⟩⟩
  rintro ⟨a, u, -, hstep⟩
  rw [hstays (max i k) (le_max_right i k)] at hstep
  exact hrest a u hstep

end Run

end RobotController.Foundation
