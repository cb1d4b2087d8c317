/-
  Foundation/Sweep.lean --- loops over an index range whose body is local.

  A loop such as `for (auto &x : xs) body(x);` threads one state through all its
  iterations.  When the body of index `i` reads and writes only the part of the
  state that belongs to `i`, the loop is one independent update per index; this
  file states that once for an arbitrary state and an arbitrary notion of part.
-/
import Mathlib.Data.List.FinRange

set_option autoImplicit false

namespace RobotController.Foundation

variable {ι σ γ : Type}

/-- Run the body for every index of the list, in order. -/
def sweep (body : ι → σ → σ) (indices : List ι) (state : σ) : σ :=
  indices.foldl (fun current index => body index current) state

@[simp] theorem sweep_nil (body : ι → σ → σ) (state : σ) : sweep body [] state = state := rfl

@[simp] theorem sweep_cons (body : ι → σ → σ) (index : ι) (rest : List ι) (state : σ) :
    sweep body (index :: rest) state = sweep body rest (body index state) := rfl

/-- What every iteration keeps, the loop keeps. -/
theorem sweep_keeps {body : ι → σ → σ} (Keeps : σ → Prop)
    (hbody : ∀ index state, Keeps state → Keeps (body index state)) :
    ∀ (indices : List ι) (state : σ), Keeps state → Keeps (sweep body indices state) := by
  intro indices
  induction indices with
  | nil => exact fun _ h => h
  | cons index rest ih => exact fun state h => ih _ (hbody index state h)

/-- The body of index `i` transforms the part `view i` of a good state by
`part i`, touches no other part, and keeps the state good. -/
structure LocalBody (Good : σ → Prop) (view : ι → σ → γ) (part : ι → γ → γ)
    (body : ι → σ → σ) : Prop where
  good : ∀ i s, Good s → Good (body i s)
  own : ∀ i s, Good s → view i (body i s) = part i (view i s)
  other : ∀ i j s, Good s → i ≠ j → view j (body i s) = view j s

namespace LocalBody

variable {Good : σ → Prop} {view : ι → σ → γ} {part : ι → γ → γ} {body : ι → σ → σ}

/-- An index the loop does not visit keeps its part. -/
theorem view_sweep_of_not_mem (h : LocalBody Good view part body) {j : ι} :
    ∀ {indices : List ι} {s : σ}, Good s → j ∉ indices →
      view j (sweep body indices s) = view j s := by
  intro indices
  induction indices with
  | nil => intro s _ _; rfl
  | cons i rest ih =>
      intro s hgood hj
      rw [List.mem_cons, not_or] at hj
      rw [sweep_cons, ih (h.good i s hgood) hj.2]
      exact h.other i j s hgood (Ne.symm hj.1)

/-- An index the loop visits once has its own part transformed, whatever the
other iterations do. -/
theorem view_sweep_of_mem (h : LocalBody Good view part body) {j : ι} :
    ∀ {indices : List ι} {s : σ}, Good s → indices.Nodup → j ∈ indices →
      view j (sweep body indices s) = part j (view j s) := by
  intro indices
  induction indices with
  | nil => intro s _ _ hj; simp at hj
  | cons i rest ih =>
      intro s hgood hnodup hj
      rw [List.nodup_cons] at hnodup
      rw [sweep_cons]
      rcases List.mem_cons.mp hj with rfl | hrest
      · rw [h.view_sweep_of_not_mem (h.good j s hgood) hnodup.1]
        exact h.own j s hgood
      · have hne : i ≠ j := fun he => hnodup.1 (he ▸ hrest)
        rw [ih (h.good i s hgood) hnodup.2 hrest, h.other i j s hgood hne]

/-- The loop over all of `Fin n` is one independent update per index. -/
theorem view_sweep_finRange {n : Nat} {view : Fin n → σ → γ} {part : Fin n → γ → γ}
    {body : Fin n → σ → σ} (h : LocalBody Good view part body) {s : σ} (hgood : Good s)
    (j : Fin n) : view j (sweep body (List.finRange n) s) = part j (view j s) :=
  h.view_sweep_of_mem hgood (List.nodup_finRange n) (List.mem_finRange j)

end LocalBody

end RobotController.Foundation
