/-
  Control/LifecycleInvariant.lean --- the invariant of starting, stopping and
  joining.

  At most one worker is alive, and while it is, the lifecycle is not idle; so no run
  gets past its first check, and nothing clears a request to stop.
-/
import RobotController.Control.Lifecycle

set_option autoImplicit false

namespace RobotController.Control

open RobotController.Foundation

/-! ## What the members satisfy -/

namespace Members

/-- The worker that has not been joined: the one `thread_` holds, or the one about to
be assigned to it. -/
def current (m : Members) : Option Critical → Option Nat
  | some (.runCreated _ i) => some i
  | _ => m.thread

/-- Worker `i` has been started for so many cycles. -/
def Started (m : Members) (i : Nat) (cycleCount : Int) : Prop :=
  ∃ w, m.workers[i]? = some w ∧ w.cycleCount = cycleCount

/-- What the holder of the mutex knows at each place.  Between the two stores of
`run` nobody but `requestStop` can raise the flag again. -/
def Place (m : Members) (requests : Nat) : Critical → Prop
  | .runAdmitted n => m.lifecycleState = .idle ∧ 0 < n
  | .runCleared n clearedAt =>
      m.lifecycleState = .idle ∧ 0 < n ∧ clearedAt ≤ requests ∧
        (m.stopRequested = true → clearedAt < requests)
  | .runMarked n clearedAt =>
      m.thread = none ∧ m.lifecycleState ≠ .idle ∧ 0 < n ∧ clearedAt ≤ requests ∧
        (m.stopRequested = true → clearedAt < requests)
  | .runCreated n i => m.thread = none ∧ 0 < n ∧ m.Started i n
  | .runReplacing _ _ _ => False
  | .runLeaving n found worker =>
      (worker.isSome = true ↔ found = .idle ∧ 0 < n) ∧ ∀ i, worker = some i → m.Started i n
  | .waitJoined => m.thread = none
  | _ => True

/-- What holds of worker `i`, `current` being the one not joined.  A raised flag was
raised after the worker's run cleared it, and the cycle count has grown by the
cycles of the latest worker. -/
structure Accounted (m : Members) (requests : Nat) (current : Option Nat) (i : Nat)
    (w : Worker) : Prop where
  sound : w.Sound
  unjoined : w.joined = false ↔ current = some i
  ended : w.joined = true → w.stage = .ended
  cleared_le : w.clearedAt ≤ requests
  lastCheck_le : w.lastCheck ≤ requests
  stop : w.joined = false → m.stopRequested = true → w.clearedAt < requests
  counted : w.executed ≤ m.measuredCycles
  growth : i + 1 = m.workers.length →
    m.completedCycles = w.startCount + BitVec.ofNat 32 w.executed

/-- The invariant of the members, the mutex being held at a place or not at all. -/
structure Consistent (m : Members) (requests : Nat) (critical : Option Critical) : Prop where
  worker : ∀ i w, m.workers[i]? = some w → m.Accounted requests (m.current critical) i w
  latest : ∀ i, m.current critical = some i → i + 1 = m.workers.length
  idle : m.lifecycleState = .idle → m.current critical = none
  measured : m.completedCycles = BitVec.ofNat 32 m.measuredCycles
  place : ∀ c, critical = some c → m.Place requests c

variable {m m' : Members} {requests i : Nat} {critical : Option Critical} {c c' : Critical}

theorem current_eq (h : m'.thread = m.thread) (critical : Option Critical) :
    m'.current critical = m.current critical := by
  unfold current
  split <;> simp [h]

theorem consistent_initial : initial.Consistent 0 none where
  worker := by simp [initial]
  latest := by simp [initial, current]
  idle := by simp [initial, current]
  measured := rfl
  place := by simp

/-- The holder may move to another place that accounts for the same worker. -/
theorem Consistent.relocate (h : m.Consistent requests critical) {critical' : Option Critical}
    (hcurrent : m.current critical' = m.current critical)
    (hplace : ∀ c, critical' = some c → m.Place requests c) :
    m.Consistent requests critical' := by
  refine ⟨?_, ?_, ?_, h.measured, hplace⟩
  · rw [hcurrent]
    exact h.worker
  · rw [hcurrent]
    exact h.latest
  · rw [hcurrent]
    exact h.idle

/-- At most one worker has not been joined. -/
theorem Consistent.unique (h : m.Consistent requests critical) {j : Nat} {w v : Worker}
    (hw : m.workers[i]? = some w) (hv : m.workers[j]? = some v) (hwjoined : w.joined = false)
    (hvjoined : v.joined = false) : i = j := by
  have hi := (h.worker i w hw).unjoined.mp hwjoined
  have hj := (h.worker j v hv).unjoined.mp hvjoined
  exact Option.some.inj (hi.symm.trans hj)

/-- A request to stop is later than every run that has cleared the flag. -/
theorem Consistent.requestStop (h : m.Consistent requests critical) :
    ({ m with stopRequested := true } : Members).Consistent (requests + 1) critical := by
  refine ⟨fun i w hw => ?_, h.latest, h.idle, h.measured, fun c hc => ?_⟩
  · have haccounted := h.worker i w hw
    exact { haccounted with
      cleared_le := Nat.le_succ_of_le haccounted.cleared_le
      lastCheck_le := Nat.le_succ_of_le haccounted.lastCheck_le
      stop := fun _ _ => Nat.lt_succ_of_le haccounted.cleared_le }
  · have hplace := h.place c hc
    cases c <;> simp only [Place] at hplace ⊢
    case runCleared =>
      obtain ⟨hidle, hpositive, hle, -⟩ := hplace
      exact ⟨hidle, hpositive, Nat.le_succ_of_le hle, fun _ => Nat.lt_succ_of_le hle⟩
    case runMarked =>
      obtain ⟨hthread, hidle, hpositive, hle, -⟩ := hplace
      exact ⟨hthread, hidle, hpositive, Nat.le_succ_of_le hle, fun _ => Nat.lt_succ_of_le hle⟩
    all_goals exact hplace

/-! ### Steps of a worker -/

/-- What a step of a worker does. -/
theorem work_cases (h : m.work requests i = some m') :
    ∃ w w', m.workers[i]? = some w ∧ w.next m.stopRequested requests = some w' ∧
      m'.workers = m.workers.set i w' ∧ m'.thread = m.thread ∧
      m'.stopRequested = m.stopRequested ∧
      (m'.lifecycleState = m.lifecycleState ∨ m'.lifecycleState = .finished) ∧
      ((w'.executed = w.executed ∧ m'.completedCycles = m.completedCycles ∧
          m'.measuredCycles = m.measuredCycles) ∨
        (w'.executed = w.executed + 1 ∧ m'.completedCycles = m.completedCycles + 1 ∧
          m'.measuredCycles = m.measuredCycles + 1)) := by
  unfold work at h
  obtain ⟨w, hw, h⟩ := Option.bind_eq_some_iff.mp h
  obtain ⟨w', hw', h⟩ := Option.bind_eq_some_iff.mp h
  have hexecuted := Worker.executed_next hw'
  refine ⟨w, w', hw, hw', ?_⟩
  cases hstage : w.stage <;> rw [hstage] at h hexecuted <;> obtain rfl := Option.some.inj h <;>
    simp [hexecuted]

/-- What a step of worker `i` does to the workers. -/
theorem worker_of_work (h : m.work requests i = some m') {j : Nat} {v : Worker}
    (hv : m.workers[j]? = some v) :
    ∃ v', m'.workers[j]? = some v' ∧
      ((i ≠ j ∧ v' = v) ∨ (i = j ∧ v.next m.stopRequested requests = some v')) := by
  obtain ⟨w, w', hw, hnext, hworkers, -⟩ := work_cases h
  rcases eq_or_ne i j with rfl | hne
  · obtain rfl : w = v := by simpa [hw] using hv
    obtain ⟨hlt, -⟩ := List.getElem?_eq_some_iff.mp hw
    exact ⟨w', by rw [hworkers, List.getElem?_set_self hlt], .inr ⟨rfl, hnext⟩⟩
  · exact ⟨v, by rw [hworkers, List.getElem?_set_ne hne, hv], .inl ⟨hne, rfl⟩⟩

theorem Started.work {j : Nat} {n : Int} (h : m.Started j n)
    (hwork : m.work requests i = some m') : m'.Started j n := by
  obtain ⟨v, hv, rfl⟩ := h
  obtain ⟨v', hv', ⟨-, rfl⟩ | ⟨-, hnext⟩⟩ := worker_of_work hwork hv
  · exact ⟨v', hv', rfl⟩
  · exact ⟨v', hv', (Worker.next_frame hnext).1⟩

/-- A step of a worker keeps the invariant: the worker has not been joined, so the
lifecycle is not idle and the worker is the latest. -/
theorem Consistent.work (h : m.Consistent requests critical)
    (hwork : m.work requests i = some m') : m'.Consistent requests critical := by
  obtain ⟨w, w', hw, hnext, hworkers, hthread, hstop, hlifecycle, hcount⟩ := work_cases hwork
  have haccounted := h.worker i w hw
  obtain ⟨-, hjoined, hstart, hcleared, hcheck⟩ := Worker.next_frame hnext
  have hunjoined : w.joined = false := by
    by_contra hne
    exact Worker.stage_ne_ended hnext (haccounted.ended (by simpa using hne))
  have hcurrent := haccounted.unjoined.mp hunjoined
  have hlatest := h.latest i hcurrent
  have hnotidle : m.lifecycleState ≠ .idle := by
    intro hidle
    simp [h.idle hidle] at hcurrent
  have hnotidle' : m'.lifecycleState ≠ .idle := by
    rcases hlifecycle with hsame | hfinished
    · rwa [hsame]
    · simp [hfinished]
  have hlength : m'.workers.length = m.workers.length := by rw [hworkers, List.length_set]
  have hentry : m'.workers[i]? = some w' := by
    rw [hworkers, List.getElem?_set_self (by omega)]
  refine ⟨fun j v hv => ?_, ?_, fun hidle => absurd hidle hnotidle', ?_, fun c hc => ?_⟩
  · rw [current_eq hthread]
    rcases eq_or_ne i j with rfl | hne
    · obtain rfl : w' = v := by simpa [hentry] using hv
      refine ⟨haccounted.sound.next (haccounted.stop hunjoined) hnext, ?_, ?_, ?_, ?_, ?_, ?_,
        ?_⟩
      · rw [hjoined]
        exact haccounted.unjoined
      · simp [hjoined, hunjoined]
      · rw [hcleared]
        exact haccounted.cleared_le
      · rcases hcheck with hsame | hnow
        · rw [hsame]
          exact haccounted.lastCheck_le
        · exact Nat.le_of_eq hnow
      · rw [hjoined, hcleared, hstop]
        exact haccounted.stop
      · have hcounted := haccounted.counted
        omega
      · intro _
        have hgrowth := haccounted.growth hlatest
        rcases hcount with ⟨hexecuted, hcompleted, -⟩ | ⟨hexecuted, hcompleted, -⟩
        · rw [hcompleted, hexecuted, hstart, hgrowth]
        · rw [hcompleted, hexecuted, hstart, hgrowth, BitVec.ofNat_add, BitVec.add_assoc]
          rfl
    · have hother := h.worker j v (by rwa [hworkers, List.getElem?_set_ne hne] at hv)
      exact { hother with
        stop := by rw [hstop]; exact hother.stop
        counted := by have hcounted := hother.counted; omega
        growth := by omega }
  · rw [current_eq hthread, hlength]
    exact h.latest
  · rcases hcount with ⟨-, hcompleted, hmeasured⟩ | ⟨-, hcompleted, hmeasured⟩
    · rw [hcompleted, hmeasured, h.measured]
    · rw [hcompleted, hmeasured, h.measured, BitVec.ofNat_add]
      rfl
  · have hplace := h.place c hc
    cases c <;> simp only [Place, hthread, hstop] at hplace ⊢
    case runAdmitted => exact absurd hplace.1 hnotidle
    case runCleared => exact absurd hplace.1 hnotidle
    case runMarked => exact ⟨hplace.1, hnotidle', hplace.2.2⟩
    case runCreated => exact ⟨hplace.1, hplace.2.1, hplace.2.2.work hwork⟩
    case runLeaving => exact ⟨hplace.1, fun j hj => (hplace.2 j hj).work hwork⟩
    all_goals exact hplace

/-! ### Steps of the holder of the mutex -/

/-- What a step of the holder of the mutex can be. -/
inductive Advances (m : Members) (requests : Nat) : Critical → Members → Critical → Prop where
  | reject {n : Int} :
      ¬ (m.lifecycleState = .idle ∧ 0 < n) →
      Advances m requests (.runLocked n) m (.runLeaving n m.lifecycleState none)
  | accept {n : Int} :
      m.lifecycleState = .idle → 0 < n →
      Advances m requests (.runLocked n) m (.runAdmitted n)
  | clear {n : Int} :
      Advances m requests (.runAdmitted n) { m with stopRequested := false }
        (.runCleared n requests)
  | mark {n : Int} {clearedAt : Nat} :
      Advances m requests (.runCleared n clearedAt) { m with lifecycleState := .running }
        (.runMarked n clearedAt)
  | create {n : Int} {clearedAt : Nat} :
      Advances m requests (.runMarked n clearedAt)
        { m with workers := m.workers ++ [Worker.new n clearedAt m.completedCycles] }
        (.runCreated n m.workers.length)
  | assign {n : Int} {i : Nat} :
      m.thread = none →
      Advances m requests (.runCreated n i) { m with thread := some i }
        (.runLeaving n .idle (some i))
  | replace {n : Int} {i old : Nat} :
      m.thread = some old →
      Advances m requests (.runCreated n i) (m.requestToken old) (.runReplacing n i old)
  | replaced {n : Int} {i old : Nat} :
      m.hasEnded old = true →
      Advances m requests (.runReplacing n i old) { m.join old with thread := some i }
        (.runLeaving n .idle (some i))
  | nothingToJoin : m.thread = none → Advances m requests .waitLocked m .waitJoined
  | join {i : Nat} :
      m.thread = some i → m.hasEnded i = true →
      Advances m requests .waitLocked (m.join i) .waitJoined
  | idle : Advances m requests .waitJoined { m with lifecycleState := .idle } .waitLeaving

theorem advances_of_advance (h : m.advance requests c = some (m', c')) :
    Advances m requests c m' c' := by
  cases c with
  | runLocked n =>
      simp only [Members.advance] at h
      split_ifs at h with hfound hcount <;> obtain ⟨rfl, rfl⟩ := by simpa using h
      · exact .reject fun hboth => hfound hboth.1
      · exact .reject fun hboth => absurd hboth.2 (by omega)
      · exact .accept (by simpa using hfound) (by omega)
  | runAdmitted n =>
      obtain ⟨rfl, rfl⟩ := by simpa [Members.advance] using h
      exact .clear
  | runCleared n clearedAt =>
      obtain ⟨rfl, rfl⟩ := by simpa [Members.advance] using h
      exact .mark
  | runMarked n clearedAt =>
      obtain ⟨rfl, rfl⟩ := by simpa [Members.advance] using h
      exact .create
  | runCreated n i =>
      cases hthread : m.thread with
      | none =>
          obtain ⟨rfl, rfl⟩ := by simpa [Members.advance, hthread] using h
          exact .assign hthread
      | some old =>
          obtain ⟨rfl, rfl⟩ := by simpa [Members.advance, hthread] using h
          exact .replace hthread
  | runReplacing n i old =>
      simp only [Members.advance] at h
      split_ifs at h with hended
      obtain ⟨rfl, rfl⟩ := by simpa using h
      exact .replaced hended
  | runLeaving n found worker => simp [Members.advance] at h
  | waitLocked =>
      cases hthread : m.thread with
      | none =>
          obtain ⟨rfl, rfl⟩ := by simpa [Members.advance, hthread] using h
          exact .nothingToJoin hthread
      | some i =>
          simp only [Members.advance, hthread] at h
          split_ifs at h with hended
          obtain ⟨rfl, rfl⟩ := by simpa using h
          exact .join hthread hended
  | waitJoined =>
      obtain ⟨rfl, rfl⟩ := by simpa [Members.advance] using h
      exact .idle
  | waitLeaving => simp [Members.advance] at h

/-- With no worker left to join, all have ended. -/
theorem Consistent.joined (h : m.Consistent requests critical)
    (hnone : m.current critical = none) {w : Worker} (hw : m.workers[i]? = some w) :
    w.joined = true := by
  have hunjoined := (h.worker i w hw).unjoined
  rw [hnone] at hunjoined
  cases hjoined : w.joined with
  | true => rfl
  | false => simp [hjoined] at hunjoined

/-- A new worker is the only one that has not been joined. -/
theorem Consistent.create {n : Int} {clearedAt : Nat}
    (h : m.Consistent requests (some (.runMarked n clearedAt))) :
    ({ m with workers := m.workers ++ [Worker.new n clearedAt m.completedCycles] } :
      Members).Consistent requests (some (.runCreated n m.workers.length)) := by
  obtain ⟨hthread, hnotidle, hpositive, hle, hstop⟩ := h.place _ rfl
  refine ⟨fun j v hv => ?_, ?_, fun hidle => absurd hidle hnotidle, h.measured, ?_⟩
  · rcases Nat.lt_trichotomy j m.workers.length with hold | rfl | hbeyond
    · have hother := h.worker j v (by rwa [List.getElem?_append_left hold] at hv)
      have hjoined := h.joined hthread (by rwa [List.getElem?_append_left hold] at hv)
      have hne : m.workers.length ≠ j := by omega
      exact { hother with
        unjoined := by simp [hjoined, current, hne]
        growth := by simp; omega }
    · obtain rfl : Worker.new n clearedAt m.completedCycles = v := by simpa using hv
      refine ⟨Worker.sound_new hpositive _ _, ?_, ?_, hle, hle, fun _ => hstop,
        Nat.zero_le _, ?_⟩
      · simp [Worker.new, current]
      · simp [Worker.new]
      · simp [Worker.new]
    · rw [List.getElem?_eq_none (by simp; omega)] at hv
      simp at hv
  · simp [current]
  · rintro c ⟨⟩
    exact ⟨hthread, hpositive, _, List.getElem?_concat_length, rfl⟩

/-- Joining the worker of `thread_` leaves none to join. -/
theorem Consistent.join (h : m.Consistent requests (some .waitLocked)) (hthread : m.thread = some i)
    (hended : m.hasEnded i = true) : (m.join i).Consistent requests (some .waitJoined) := by
  have hcurrent : m.current (some .waitLocked) = some i := hthread
  refine ⟨fun j v hv => ?_, ?_, fun _ => rfl, h.measured, ?_⟩
  · simp only [Members.join, List.getElem?_modify] at hv
    obtain ⟨w, hw, rfl⟩ := Option.map_eq_some_iff.mp hv
    have haccounted := h.worker j w hw
    rcases eq_or_ne i j with rfl | hne
    · simp only [if_true]
      have hstage : w.stage = .ended := by simpa [hasEnded, hw] using hended
      exact { haccounted with
        sound := ⟨haccounted.sound.stopToken, haccounted.sound.positive,
          haccounted.sound.progress⟩
        unjoined := by simp [current, Members.join]
        ended := fun _ => hstage
        stop := by simp
        growth := by simpa [Members.join] using haccounted.growth }
    · simp only [if_neg hne]
      have hjoined : w.joined ≠ false := by
        rw [ne_eq, haccounted.unjoined, hcurrent, Option.some.injEq]
        exact hne
      exact { haccounted with
        unjoined := by simp [current, Members.join, hjoined]
        growth := by simpa [Members.join] using haccounted.growth }
  · simp [current, Members.join]
  · rintro c ⟨⟩
    rfl

/-- A step of the holder of the mutex keeps the invariant. -/
theorem Consistent.advance (h : m.Consistent requests (some c))
    (hadvances : Advances m requests c m' c') : m'.Consistent requests (some c') := by
  have hplace := h.place c rfl
  cases hadvances with
  | reject hfound =>
      refine h.relocate rfl ?_
      rintro c ⟨⟩
      exact ⟨by simpa using hfound, by simp⟩
  | accept hidle hpositive =>
      refine h.relocate rfl ?_
      rintro c ⟨⟩
      exact ⟨hidle, hpositive⟩
  | clear =>
      refine ⟨fun i w hw => ?_, h.latest, h.idle, h.measured, ?_⟩
      · exact { h.worker i w hw with stop := by simp }
      · rintro c ⟨⟩
        exact ⟨hplace.1, hplace.2, Nat.le_refl _, by simp⟩
  | mark =>
      obtain ⟨hidle, hpositive, hle, hstop⟩ := hplace
      refine ⟨fun i w hw => { h.worker i w hw with }, h.latest, by simp, h.measured, ?_⟩
      rintro c ⟨⟩
      exact ⟨h.idle hidle, by simp, hpositive, hle, hstop⟩
  | create => exact h.create
  | assign hthread =>
      refine ⟨fun i w hw => { h.worker i w hw with }, h.latest, h.idle, h.measured, ?_⟩
      rintro c ⟨⟩
      refine ⟨by simp [hplace.2.1], ?_⟩
      rintro j ⟨⟩
      exact hplace.2.2
  | replace hthread => exact absurd (hthread.symm.trans hplace.1) (by simp)
  | replaced _ => exact hplace.elim
  | nothingToJoin hthread =>
      refine h.relocate rfl ?_
      rintro c ⟨⟩
      exact hthread
  | join hthread hended => exact h.join hthread hended
  | idle =>
      refine ⟨fun i w hw => { h.worker i w hw with }, h.latest, fun _ => hplace, h.measured, ?_⟩
      rintro c ⟨⟩
      trivial

/-- The holder of the mutex does not touch the work of a worker. -/
theorem worker_of_advance (h : Advances m requests c m' c') {j : Nat} {v : Worker}
    (hv : m.workers[j]? = some v) :
    ∃ stopToken joined, (joined = false → v.joined = false) ∧
      m'.workers[j]? = some { v with stopToken := stopToken, joined := joined } := by
  have hjoin : ∀ i, ∃ stopToken joined, (joined = false → v.joined = false) ∧
      (m.join i).workers[j]? = some { v with stopToken := stopToken, joined := joined } := by
    intro i
    refine ⟨v.stopToken, if i = j then true else v.joined, by split_ifs <;> simp, ?_⟩
    rw [Members.join, List.getElem?_modify, hv]
    split_ifs <;> rfl
  cases h with
  | create =>
      obtain ⟨hlt, -⟩ := List.getElem?_eq_some_iff.mp hv
      exact ⟨v.stopToken, v.joined, id, by rw [List.getElem?_append_left hlt, hv]⟩
  | @replace n i old hthread =>
      refine ⟨if old = j then true else v.stopToken, v.joined, id, ?_⟩
      rw [requestToken, List.getElem?_modify, hv]
      split_ifs <;> rfl
  | replaced _ => exact hjoin _
  | join _ _ => exact hjoin _
  | _ => exact ⟨v.stopToken, v.joined, id, hv⟩

theorem Started.advance {j : Nat} {n : Int} (h : m.Started j n)
    (hadvances : Advances m requests c m' c') : m'.Started j n := by
  obtain ⟨v, hv, rfl⟩ := h
  obtain ⟨stopToken, joined, -, hv'⟩ := worker_of_advance hadvances hv
  exact ⟨_, hv', rfl⟩

/-- A call that is turned down changes nothing. -/
theorem eq_of_rejecting (h : Advances m requests c m' c') (hrejecting : c'.IsRejecting) :
    m' = m ∧ c.IsRejecting := by
  cases h with
  | reject _ => exact ⟨rfl, trivial⟩
  | assign _ => simp [Critical.IsRejecting] at hrejecting
  | replaced _ => simp [Critical.IsRejecting] at hrejecting
  | _ => exact hrejecting.elim

/-- The workers are created one by one, each by one call. -/
theorem created_of_advance (h : Advances m requests c m' c') {started : List Nat}
    (hstarted : started ++ c.created.toList = List.range m.workers.length) :
    started ++ c'.created.toList = List.range m'.workers.length := by
  cases h with
  | create => simpa [Critical.created, List.range_succ] using hstarted
  | replace _ => simpa [Critical.created, requestToken] using hstarted
  | replaced _ => simpa [Critical.created, Members.join] using hstarted
  | join _ _ => simpa [Critical.created, Members.join] using hstarted
  | _ => exact hstarted

/-- Nothing but a run that has found the lifecycle idle lowers the flag. -/
theorem stopRequested_of_advance (h : Advances m requests c m' c') :
    m'.stopRequested = m.stopRequested ∨ ∃ n, c = .runAdmitted n := by
  cases h with
  | clear => exact .inr ⟨_, rfl⟩
  | _ => exact .inl rfl

end Members

/-! ## What holds in every interleaving -/

namespace Lifecycle

variable {τ : Type}

/-- `ControlLoop::completedCycles`. -/
def completedCycles (s : Lifecycle τ) : Int := s.members.completedCycles.toInt

/-- Where the holder of the mutex is. -/
def critical (s : Lifecycle τ) : Option Critical := s.mutex.map Holder.critical

/-- What a call of `run` that has returned has done. -/
def Settled (m : Members) (r : RunRecord) : Prop :=
  (r.worker.isSome = true ↔ r.found = .idle ∧ 0 < r.cycleCount) ∧
    (r.worker = none → r.untouched = true) ∧
    ∀ i, r.worker = some i → m.Started i r.cycleCount

/-- The invariant of the loop and its callers. -/
structure Orderly (s : Lifecycle τ) : Prop where
  consistent : s.members.Consistent s.requests s.critical
  holder : ∀ h, s.mutex = some h → h.critical.IsRejecting → h.untouched = true
  runs : ∀ r ∈ s.runs, Settled s.members r
  started : s.runs.filterMap RunRecord.worker ++ (s.critical.bind Critical.created).toList =
    List.range s.members.workers.length

theorem orderly_initial : (initial : Lifecycle τ).Orderly where
  consistent := Members.consistent_initial
  holder := by simp [initial]
  runs := by simp [initial]
  started := by simp [initial, critical, Members.initial]

theorem Orderly.requestStop {s : Lifecycle τ} (h : s.Orderly) : s.requestStop.Orderly where
  consistent := h.consistent.requestStop
  holder := h.holder
  runs := h.runs
  started := h.started

theorem Orderly.work {s s' : Lifecycle τ} {i : Nat} (h : s.Orderly) (hwork : s.work i = some s') :
    s'.Orderly := by
  obtain ⟨m, hm, rfl⟩ := Option.map_eq_some_iff.mp hwork
  obtain ⟨w, w', -, -, hworkers, -⟩ := Members.work_cases hm
  have hlength : m.workers.length = s.members.workers.length := by
    rw [hworkers, List.length_set]
  refine ⟨h.consistent.work hm, h.holder, fun r hr => ?_, h.started.trans (by rw [hlength])⟩
  obtain ⟨hiff, huntouched, hstarted⟩ := h.runs r hr
  exact ⟨hiff, huntouched, fun i hi => (hstarted i hi).work hm⟩

variable [DecidableEq τ] {s s' : Lifecycle τ} {t : τ}

/-- What a step of the holder of the mutex is. -/
theorem proceed_cases (h : s.proceed t = some s') :
    ∃ c untouched m' c', s.mutex = some ⟨t, c, untouched⟩ ∧
      Members.Advances s.members s.requests c m' c' ∧
      s' = { s with
        members := m', mutex := some ⟨t, c', untouched && (m' == s.members)⟩ } := by
  obtain ⟨⟨caller, c, untouched⟩, hmutex, h⟩ := Option.bind_eq_some_iff.mp h
  split_ifs at h with hcaller
  obtain ⟨⟨m', c'⟩, hadvance, h⟩ := Option.bind_eq_some_iff.mp h
  obtain rfl : caller = t := hcaller
  obtain rfl := Option.some.inj h
  exact ⟨c, untouched, m', c', hmutex, Members.advances_of_advance hadvance, rfl⟩

/-- What the end of a call is. -/
theorem release_cases (h : s.release t = some s') :
    ∃ c untouched, s.mutex = some ⟨t, c, untouched⟩ ∧
      ((∃ n found worker, c = .runLeaving n found worker ∧
          s' = { s with
            mutex := none
            callers := Function.update s.callers t .outside
            runs := s.runs ++ [⟨n, found, worker, untouched⟩] }) ∨
        (c = .waitLeaving ∧
          s' = { s with mutex := none, callers := Function.update s.callers t .outside })) := by
  obtain ⟨⟨caller, c, untouched⟩, hmutex, h⟩ := Option.bind_eq_some_iff.mp h
  split_ifs at h with hcaller
  obtain rfl : caller = t := hcaller
  refine ⟨c, untouched, hmutex, ?_⟩
  cases c with
  | runLeaving n found worker => exact .inl ⟨n, found, worker, rfl, (Option.some.inj h).symm⟩
  | waitLeaving => exact .inr ⟨rfl, (Option.some.inj h).symm⟩
  | _ => simp at h

/-- What the construction of the guard is. -/
theorem acquire_entry (h : s.acquire t = some s') :
    ∃ c, s.mutex = none ∧ (s.callers t).entry = some c ∧
      s' = { s with
        mutex := some ⟨t, c, true⟩, callers := Function.update s.callers t .inside } := by
  unfold acquire at h
  cases hmutex : s.mutex with
  | some holder => simp [hmutex] at h
  | none =>
      cases hentry : (s.callers t).entry with
      | none => simp [hmutex, hentry] at h
      | some c =>
          simp only [hmutex, hentry] at h
          exact ⟨c, rfl, rfl, (Option.some.inj h).symm⟩

theorem acquire_cases (h : s.acquire t = some s') :
    ∃ c, s.mutex = none ∧ ((∃ n, c = .runLocked n) ∨ c = .waitLocked) ∧
      s' = { s with
        mutex := some ⟨t, c, true⟩, callers := Function.update s.callers t .inside } := by
  obtain ⟨c, hmutex, hentry, rfl⟩ := acquire_entry h
  refine ⟨c, hmutex, ?_, rfl⟩
  cases hcaller : s.callers t <;> simp only [hcaller, Caller.entry, reduceCtorEq] at hentry
  · exact .inl ⟨_, (Option.some.inj hentry).symm⟩
  · exact .inr (Option.some.inj hentry).symm

theorem call_cases {caller : Caller} (h : s.call t caller = some s') :
    s' = { s with callers := Function.update s.callers t caller } := by
  unfold call at h
  split_ifs at h
  exact (Option.some.inj h).symm

theorem Orderly.proceed (h : s.Orderly) (hproceed : s.proceed t = some s') : s'.Orderly := by
  obtain ⟨c, untouched, m', c', hmutex, hadvances, rfl⟩ := proceed_cases hproceed
  obtain ⟨hconsistent, hholder, hruns, hstarted⟩ := h
  have hcritical : s.critical = some c := by simp [critical, hmutex]
  rw [hcritical] at hconsistent hstarted
  refine ⟨hconsistent.advance hadvances, ?_, fun r hr => ?_, ?_⟩
  · rintro holder ⟨⟩ hrejecting
    obtain ⟨rfl, hbefore⟩ := Members.eq_of_rejecting hadvances hrejecting
    simpa using hholder _ hmutex hbefore
  · obtain ⟨hiff, huntouched, hworker⟩ := hruns r hr
    exact ⟨hiff, huntouched, fun i hi => (hworker i hi).advance hadvances⟩
  · exact Members.created_of_advance hadvances hstarted

theorem Orderly.release (h : s.Orderly) (hrelease : s.release t = some s') : s'.Orderly := by
  obtain ⟨c, untouched, hmutex, hcases⟩ := release_cases hrelease
  obtain ⟨hconsistent, hholder, hruns, hstarted⟩ := h
  have hcritical : s.critical = some c := by simp [critical, hmutex]
  rw [hcritical] at hconsistent hstarted
  rcases hcases with ⟨n, found, worker, rfl, rfl⟩ | ⟨rfl, rfl⟩
  · refine ⟨hconsistent.relocate rfl (by simp [critical]), by simp, fun r hr => ?_, ?_⟩
    · rcases List.mem_append.mp hr with hold | hnew
      · exact hruns r hold
      · obtain rfl := List.mem_singleton.mp hnew
        obtain ⟨hiff, hworker⟩ := hconsistent.place _ rfl
        exact ⟨hiff, hholder _ hmutex, hworker⟩
    · have hadded : ([⟨n, found, worker, untouched⟩] : List RunRecord).filterMap
          RunRecord.worker = worker.toList := by
        cases worker <;> rfl
      rw [← hstarted, List.filterMap_append, hadded]
      simp [critical, Critical.created]
  · refine ⟨hconsistent.relocate rfl (by simp [critical]), by simp, hruns, ?_⟩
    rw [← hstarted]
    rfl

theorem Orderly.acquire (h : s.Orderly) (hacquire : s.acquire t = some s') : s'.Orderly := by
  obtain ⟨c, hmutex, hentry, rfl⟩ := acquire_cases hacquire
  obtain ⟨hconsistent, -, hruns, hstarted⟩ := h
  have hcritical : s.critical = none := by simp [critical, hmutex]
  rw [hcritical] at hconsistent hstarted
  refine ⟨hconsistent.relocate ?_ ?_, ?_, hruns, ?_⟩
  · rcases hentry with ⟨n, rfl⟩ | rfl <;> rfl
  · rintro c ⟨⟩
    rcases hentry with ⟨n, rfl⟩ | rfl <;> trivial
  · rintro holder ⟨⟩ _
    rfl
  · rcases hentry with ⟨n, rfl⟩ | rfl <;> exact hstarted

/-- The invariant survives every step of every thread. -/
theorem Orderly.step {event : LifecycleEvent τ} (h : s.Orderly) (hstep : Step s event s') :
    s'.Orderly := by
  cases event with
  | call t caller =>
      obtain rfl := call_cases hstep
      exact ⟨h.consistent, h.holder, h.runs, h.started⟩
  | requestStop =>
      obtain rfl := Option.some.inj hstep
      exact h.requestStop
  | acquire t => exact h.acquire hstep
  | proceed t => exact h.proceed hstep
  | release t => exact h.release hstep
  | work i => exact h.work hstep

theorem Reached.orderly (h : s.Reached) : s.Orderly := by
  refine h.invariant Orderly ?_ fun _ _ _ => Orderly.step
  rintro start rfl
  exact orderly_initial

end Lifecycle

end RobotController.Control
