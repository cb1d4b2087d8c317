/-
  Foundation/SeqlockSound.lean --- the invariant of the sequence lock.

  Every step of the machine keeps `Sound`, one lemma for each kind of step.  The
  accepting step is where the lock earns its name: between two equal sequence
  values nothing was published, unless the counter wrapped around in between.
-/
import RobotController.Foundation.Seqlock
import Mathlib.Data.List.Nodup
import Mathlib.Logic.IsEmpty.Basic
import Mathlib.Order.Nat

set_option autoImplicit false

namespace RobotController.Foundation

namespace Seqlock

section Arithmetic

variable {ι α : Type}

/-! ## Arithmetic of the sequence -/

theorem ofNat_and_one (n : Nat) : BitVec.ofNat 64 n &&& 1 = 0 ↔ n % 2 = 0 := by
  rw [← BitVec.toNat_inj]
  simp only [BitVec.toNat_and, BitVec.toNat_ofNat, BitVec.ofNat_eq_ofNat]
  rw [show 1 % 2 ^ 64 = 1 from rfl, show 0 % 2 ^ 64 = 0 from rfl, Nat.and_one_is_mod]
  omega

theorem ofNat_inj_iff (m n : Nat) :
    BitVec.ofNat 64 m = BitVec.ofNat 64 n ↔ m % 2 ^ 64 = n % 2 ^ 64 := by
  rw [← BitVec.toNat_inj, BitVec.toNat_ofNat, BitVec.toNat_ofNat]

theorem ofNat_add_one (n : Nat) : BitVec.ofNat 64 n + 1 = BitVec.ofNat 64 (n + 1) :=
  (BitVec.ofNat_add n 1).symm

theorem add_two_and_one (sequence : BitVec 64) : (sequence + 1 + 1) &&& 1 = sequence &&& 1 := by
  rw [← BitVec.toNat_inj]
  simp only [BitVec.toNat_and, BitVec.toNat_add, BitVec.toNat_ofNat, BitVec.ofNat_eq_ofNat]
  rw [show 1 % 2 ^ 64 = 1 from rfl, Nat.and_one_is_mod, Nat.and_one_is_mod]
  omega

theorem Writer.marked_le_one (writer : Writer ι α) : writer.marked ≤ 1 := by
  cases writer <;> simp [Writer.marked]

end Arithmetic

/-! ## What a step may change under a reading -/

section Steps

variable {ι V α T : Type} {layout : Layout ι V α} {q q' : State ι V α T}
  {reading reading' : Reading ι V α}

/-- An entry of the history stays where it is when publications are added. -/
theorem history_mono {n : Nat} {a : α} (h : q.history <+: q'.history)
    (ha : q.history[n]? = some a) : q'.history[n]? = some a := by
  obtain ⟨hn, rfl⟩ := List.getElem?_eq_some_iff.mp ha
  exact List.prefix_iff_getElem?.mp h n hn

/-- A reading stays consistent while publications begin and complete, provided
that its quietness is withdrawn when one begins. -/
theorem Coherent.mono (h : Coherent layout q reading)
    (hcompleted : q.completed ≤ q'.completed)
    (hmarked : q.completed + q.writer.marked ≤ q'.completed + q'.writer.marked)
    (hhistory : q.history <+: q'.history)
    (hsince : reading'.since = reading.since) (hgiven : reading'.given = reading.given)
    (hphase : reading'.phase = reading.phase)
    (hless : reading.quiet = false → reading'.quiet = false)
    (hquiet : reading'.quiet = true → q'.writer = .idle ∧ reading.since = q'.completed) :
    Coherent layout q' reading' where
  since_le := hsince ▸ h.since_le.trans hcompleted
  idle_of_quiet := hsince ▸ hquiet
  phase := by
    have hold := h.phase
    rw [hphase]
    cases hp : reading.phase with
    | attempting left => exact trivial
    | loading left before base rest got =>
        rw [hp] at hold
        obtain ⟨hbase, hle, hbefore, hgot⟩ := hold
        refine ⟨hsince ▸ hbase, hle.trans hcompleted, hbefore, fun i hi => ?_⟩
        obtain ⟨n, a, hn, hnle, ha, hcell⟩ := hgot i hi
        exact ⟨n, a, hn, hnle.trans hmarked, history_mono hhistory ha, hcell⟩
    | returned ok out =>
        rw [hp] at hold
        cases ok with
        | true =>
            obtain ⟨n, hn, hnle, ha⟩ := hold
            exact ⟨n, hsince ▸ hn, hnle.trans hcompleted, history_mono hhistory ha⟩
        | false => exact ⟨hgiven ▸ hold.1, hless hold.2⟩

/-- The readings are consistent after a step of the writer within a publication:
none of them is quiet. -/
theorem Sound.readings_of_busy [DecidableEq ι] (h : Sound layout q)
    (hbusy : q.writer ≠ .idle) (hreaders : q'.readers = q.readers)
    (hcompleted : q.completed ≤ q'.completed)
    (hmarked : q.completed + q.writer.marked ≤ q'.completed + q'.writer.marked)
    (hhistory : q'.history = q.history) (t : T) (reading : Reading ι V α)
    (ht : q'.readers t = some reading) : Coherent layout q' reading := by
  have hold := h.readings t reading (hreaders ▸ ht)
  refine hold.mono hcompleted hmarked (hhistory ▸ List.prefix_refl _) rfl rfl rfl id ?_
  intro hquiet
  exact absurd (hold.idle_of_quiet hquiet).1 hbusy

theorem Writer.marked_of_idle {writer : Writer ι α} (h : writer = .idle) :
    writer.marked = 0 := by
  rw [h, Writer.marked]

theorem State.isIdle_iff (q : State ι V α T) : q.isIdle = true ↔ q.writer = .idle := by
  unfold State.isIdle
  cases q.writer <;> simp

/-- A failed attempt was not quiet, so both ways to go on are justified. -/
theorem justified_retry (hquiet : reading.quiet = false) (left : Nat) :
    (Phase.retry reading.given left).Justified layout q
      { reading with phase := .retry reading.given left } := by
  cases left with
  | zero => exact ⟨rfl, hquiet⟩
  | succ left => exact trivial

/-! ## What a returned reading says -/

/-- A successful read returns one publication, at least as recent as the last one
completed before the read began. -/
theorem Coherent.of_returned_true (h : Coherent layout q reading) {out : α}
    (hresult : reading.result = some (true, out)) :
    ∃ n, reading.since ≤ n ∧ n ≤ q.completed ∧ q.history[n]? = some out := by
  have hphase := h.phase
  unfold Reading.result at hresult
  split at hresult
  next ok value hp =>
    obtain ⟨rfl, rfl⟩ : ok = true ∧ value = out := by simpa using hresult
    rwa [hp] at hphase
  · simp at hresult

/-- A failed read leaves the caller's value untouched, and was disturbed. -/
theorem Coherent.of_returned_false (h : Coherent layout q reading) {out : α}
    (hresult : reading.result = some (false, out)) :
    out = reading.given ∧ reading.quiet = false := by
  have hphase := h.phase
  unfold Reading.result at hresult
  split at hresult
  next ok value hp =>
    obtain ⟨rfl, rfl⟩ : ok = false ∧ value = out := by simpa using hresult
    rwa [hp] at hphase
  · simp at hresult

/-- A quiet read succeeds, with the latest publication. -/
theorem Coherent.of_quiet (h : Coherent layout q reading) (hquiet : reading.quiet = true)
    {ok : Bool} {out : α} (hresult : reading.result = some (ok, out)) :
    ok = true ∧ q.history[q.completed]? = some out := by
  cases ok with
  | false =>
      have hdisturbed := (h.of_returned_false hresult).2
      rw [hquiet] at hdisturbed
      exact absurd hdisturbed (by decide)
  | true =>
      obtain ⟨n, hn, hnle, hout⟩ := h.of_returned_true hresult
      rw [(h.idle_of_quiet hquiet).2] at hn
      rw [Nat.le_antisymm hn hnle]
      exact ⟨rfl, hout⟩

/-! ## The writer's steps -/

variable [DecidableEq ι]

theorem State.stamp_of_storing {value : α} {rest : List ι} (h : q.writer = .storing value rest)
    (i : ι) : q.stamp i = if i ∈ rest then q.completed else q.completed + 1 := by
  simp only [State.stamp, h]

theorem State.stamp_of_marked {i : ι} (h : q.writer.marked = 0) : q.stamp i = q.completed := by
  cases hw : q.writer with
  | idle => simp only [State.stamp, hw]
  | marking _ => simp only [State.stamp, hw]
  | storing _ _ => simp [hw, Writer.marked] at h

theorem State.stamp_le (q : State ι V α T) (i : ι) : q.stamp i ≤ q.completed + q.writer.marked := by
  cases hw : q.writer with
  | idle => simp [State.stamp, hw]
  | marking _ => simp [State.stamp, hw]
  | storing value rest =>
      rw [State.stamp_of_storing hw, Writer.marked]
      split <;> omega

theorem State.completed_le_stamp (q : State ι V α T) (i : ι) : q.completed ≤ q.stamp i := by
  cases hw : q.writer with
  | idle => simp [State.stamp, hw]
  | marking _ => simp [State.stamp, hw]
  | storing value rest =>
      rw [State.stamp_of_storing hw]
      split <;> omega

namespace Sound

theorem publish (h : Sound layout q) (hidle : q.writer = .idle) (value : α) :
    Sound layout (q.publish value) where
  length_history := by
    have hlength := h.length_history
    rw [hidle, Writer.begun] at hlength
    simp [State.publish, Writer.begun, hlength]
  publishing := by
    have hlength := h.length_history
    rw [hidle, Writer.begun] at hlength
    intro v hv
    obtain rfl : value = v := by simpa [State.publish, Writer.value] using hv
    simp [State.publish, ← hlength]
  sequence_eq := by
    have hsequence := h.sequence_eq
    rw [hidle, Writer.marked] at hsequence
    simpa [State.publish, Writer.marked] using hsequence
  nodup := by
    intro v rest hw
    simp [State.publish] at hw
  cells := by
    intro i
    obtain ⟨a, ha, hcell⟩ := h.cells i
    refine ⟨a, ?_, hcell⟩
    rw [State.stamp_of_marked (by rw [hidle, Writer.marked])] at ha
    rw [State.stamp_of_marked (by simp [State.publish, Writer.marked])]
    have hextends : q.history <+: (q.publish value).history := List.prefix_append _ _
    exact history_mono hextends ha
  readings := by
    intro t reading ht
    obtain ⟨old, hold, rfl⟩ := Option.map_eq_some_iff.mp ht
    refine (h.readings t old hold).mono (le_refl _) ?_ (List.prefix_append _ _) rfl rfl rfl
      (fun _ => rfl) (fun hquiet => absurd hquiet Bool.false_ne_true)
    simp [State.publish, hidle, Writer.marked]

theorem mark (h : Sound layout q) {value : α} (hw : q.writer = .marking value) :
    Sound layout (q.mark layout value) where
  length_history := by
    have hlength := h.length_history
    rwa [hw, Writer.begun] at hlength
  publishing := by
    intro v hv
    exact h.publishing v (by rw [hw]; exact hv)
  sequence_eq := by
    have hsequence := h.sequence_eq
    rw [hw, Writer.marked, Nat.add_zero] at hsequence
    simp only [State.mark, Writer.marked, hsequence, ofNat_add_one]
  nodup := by
    intro v rest hstoring
    obtain ⟨-, rfl⟩ := Writer.storing.inj hstoring
    exact layout.nodup_order
  cells := by
    intro i
    obtain ⟨a, ha, hcell⟩ := h.cells i
    refine ⟨a, ?_, hcell⟩
    rw [State.stamp_of_marked (by rw [hw, Writer.marked])] at ha
    rw [State.stamp_of_storing rfl, if_pos (layout.mem_order i)]
    exact ha
  readings := by
    refine h.readings_of_busy (by simp [hw]) rfl (le_refl _) ?_ rfl
    simp [hw, State.mark, Writer.marked]

theorem store (h : Sound layout q) {value : α} {rest : List ι} {i : ι}
    (hw : q.writer = .storing value rest) (hi : i ∈ rest) :
    Sound layout (q.store layout value rest i) where
  length_history := by
    have hlength := h.length_history
    rwa [hw, Writer.begun] at hlength
  publishing := by
    intro v hv
    exact h.publishing v (by rw [hw]; exact hv)
  sequence_eq := by
    have hsequence := h.sequence_eq
    rwa [hw, Writer.marked] at hsequence
  nodup := by
    intro v others hstoring
    obtain ⟨-, rfl⟩ := Writer.storing.inj hstoring
    exact (h.nodup value rest hw).erase i
  cells := by
    intro j
    rw [State.stamp_of_storing rfl]
    rcases eq_or_ne j i with rfl | hne
    · refine ⟨value, ?_, Function.update_self ..⟩
      rw [if_neg (h.nodup value rest hw).not_mem_erase]
      exact h.publishing value (by rw [hw, Writer.value])
    · obtain ⟨a, ha, hcell⟩ := h.cells j
      rw [State.stamp_of_storing hw] at ha
      refine ⟨a, ?_, (Function.update_of_ne hne ..).trans hcell⟩
      simp only [List.mem_erase_of_ne hne]
      exact ha
  readings := by
    refine h.readings_of_busy (by simp [hw]) rfl (le_refl _) ?_ rfl
    simp [hw, State.store, Writer.marked]

theorem unmark (h : Sound layout q) {value : α} (hw : q.writer = .storing value []) :
    Sound layout q.unmark where
  length_history := by
    have hlength := h.length_history
    rwa [hw, Writer.begun] at hlength
  publishing := by
    intro v hv
    simp [State.unmark, Writer.value] at hv
  sequence_eq := by
    have hsequence := h.sequence_eq
    rw [hw, Writer.marked] at hsequence
    simp only [State.unmark, Writer.marked, hsequence, ofNat_add_one, Nat.mul_add, Nat.add_zero]
  nodup := by
    intro v rest hstoring
    simp [State.unmark] at hstoring
  cells := by
    intro i
    obtain ⟨a, ha, hcell⟩ := h.cells i
    refine ⟨a, ?_, hcell⟩
    rw [State.stamp_of_storing hw, if_neg List.not_mem_nil] at ha
    rw [State.stamp_of_marked rfl]
    exact ha
  readings := by
    refine h.readings_of_busy (by simp [hw]) rfl (Nat.le_succ _) ?_ rfl
    simp [hw, State.unmark, Writer.marked]

end Sound

/-! ## The readers' steps -/

/-- The sequence tells how many publications have completed and whether one is in
progress, as long as it is read without wrap-around. -/
theorem Sound.even_iff (h : Sound layout q) :
    q.memory.sequence &&& 1 = 0 ↔ q.writer.marked = 0 := by
  have hle := q.writer.marked_le_one
  rw [h.sequence_eq, ofNat_and_one]
  omega

namespace Sound

variable [DecidableEq T]

/-- Replacing one reading by a consistent one keeps the invariant. -/
theorem withReading (h : Sound layout q) (t : T) (hr : Coherent layout q reading) :
    Sound layout { q with readers := Function.update q.readers t (some reading) } where
  length_history := h.length_history
  publishing := h.publishing
  sequence_eq := h.sequence_eq
  nodup := h.nodup
  cells := h.cells
  readings := by
    have hsame : ∀ r, Coherent layout q r → Coherent layout
        { q with readers := Function.update q.readers t (some reading) } r := fun r hold =>
      hold.mono (le_refl _) (le_refl _) (List.prefix_refl _) rfl rfl rfl id hold.idle_of_quiet
    intro u r hu
    rcases eq_or_ne u t with rfl | hne
    · obtain rfl : reading = r := by simpa using hu
      exact hsame reading hr
    · exact hsame r (h.readings u r (by simpa [Function.update_of_ne hne] using hu))

/-- A reading moves on to a phase that is justified. -/
theorem advance (h : Sound layout q) {t : T} (ht : q.readers t = some reading)
    {phase : Phase ι V α} (hphase : phase.Justified layout q { reading with phase := phase }) :
    Sound layout (q.advance t reading phase) := by
  have hold := h.readings t reading ht
  exact h.withReading t ⟨hold.since_le, hold.idle_of_quiet, hphase⟩

theorem read (h : Sound layout q) (retries : Nat) (t : T) (given : α) :
    Sound layout (q.read retries t given) :=
  h.withReading t
    { since_le := le_refl _
      idle_of_quiet := fun hquiet => ⟨q.isIdle_iff.mp hquiet, rfl⟩
      phase := trivial }

/-- While a publication is in progress no reading is quiet. -/
theorem busy (h : Sound layout q) {t : T} (ht : q.readers t = some reading) (left : Nat)
    (hodd : q.memory.sequence &&& 1 ≠ 0) :
    Sound layout (q.advance t reading (.retry reading.given left)) := by
  refine h.advance ht (justified_retry ?_ left)
  by_contra hquiet
  have hidle := ((h.readings t reading ht).idle_of_quiet (by simpa using hquiet)).1
  exact hodd (h.even_iff.mpr (Writer.marked_of_idle hidle))

theorem attempt (h : Sound layout q) {t : T} (ht : q.readers t = some reading) (left : Nat)
    (blank : ι → V) (heven : q.memory.sequence &&& 1 = 0) :
    Sound layout (q.advance t reading
      (.loading left q.memory.sequence q.completed layout.order blank)) := by
  refine h.advance ht ⟨(h.readings t reading ht).since_le, le_refl _, ?_, ?_⟩
  · rw [h.sequence_eq, h.even_iff.mp heven, Nat.add_zero]
  · exact fun i hi => absurd (layout.mem_order i) hi

/-- What is loaded from a cell belongs to a publication that had not completed
before the attempt began. -/
theorem load (h : Sound layout q) {t : T} (ht : q.readers t = some reading)
    {left base : Nat} {before : BitVec 64} {rest : List ι} {got : ι → V}
    (hphase : reading.phase = .loading left before base rest got) (i : ι) :
    Sound layout (q.advance t reading
      (.loading left before base (rest.erase i)
        (Function.update got i (q.memory.cells i)))) := by
  have hold := (h.readings t reading ht).phase
  rw [hphase] at hold
  obtain ⟨hsince, hbase, hbefore, hgot⟩ := hold
  refine h.advance ht ⟨hsince, hbase, hbefore, fun j hj => ?_⟩
  rcases eq_or_ne j i with rfl | hne
  · obtain ⟨a, ha, hcell⟩ := h.cells j
    refine ⟨q.stamp j, a, hbase.trans (q.completed_le_stamp j), q.stamp_le j, ha, ?_⟩
    rw [Function.update_self, hcell]
  · obtain ⟨n, a, hn, hnle, ha, hcell⟩ := hgot j (by rwa [List.mem_erase_of_ne hne] at hj)
    exact ⟨n, a, hn, hnle, ha, (Function.update_of_ne hne ..).trans hcell⟩

/-- Equal sequence values mean equal publications: when an attempt closes on the
value it opened with, the cells it loaded belong to one publication. -/
theorem accept (h : Sound layout q) (hunambiguous : Unambiguous q) {t : T}
    (ht : q.readers t = some reading) {left base : Nat} {before : BitVec 64} {got : ι → V}
    (hphase : reading.phase = .loading left before base [] got)
    (hequal : before = q.memory.sequence) :
    Sound layout (q.advance t reading (.returned true (layout.value got))) := by
  have hold := (h.readings t reading ht).phase
  rw [hphase] at hold
  obtain ⟨hsince, hbase, hbefore, hgot⟩ := hold
  have hsequence : 2 * base % 2 ^ 64 = (2 * q.completed + q.writer.marked) % 2 ^ 64 := by
    rw [← ofNat_inj_iff, ← hbefore, hequal, h.sequence_eq]
  have hle := q.writer.marked_le_one
  have hmarked : q.writer.marked = 0 := by omega
  rw [hmarked, Nat.add_zero] at hgot
  suffices hone : ∃ n a, base ≤ n ∧ n ≤ q.completed ∧ q.history[n]? = some a ∧
      ∀ i, got i = layout.cells a i by
    obtain ⟨n, a, hn, hnle, ha, hcells⟩ := hone
    refine h.advance ht ⟨n, hsince.trans hn, hnle, ?_⟩
    rw [ha, funext hcells, layout.value_cells]
  have hlength := h.length_history
  rcases hunambiguous with hsub | hwrap
  · rcases isEmpty_or_nonempty ι with hempty | ⟨⟨i⟩⟩
    · refine ⟨base, q.history[base], le_refl _, hbase, List.getElem?_eq_getElem (by omega), ?_⟩
      exact fun i => hempty.elim i
    · obtain ⟨n, a, hn, hnle, ha, hcell⟩ := hgot i List.not_mem_nil
      exact ⟨n, a, hn, hnle, ha, fun j => by rw [Subsingleton.elim j i, hcell]⟩
  · have hspan := hwrap t reading base ht (by rw [Reading.attempt, hphase])
    have hcompleted : q.completed = base := by omega
    refine ⟨base, q.history[base], le_refl _, hbase, List.getElem?_eq_getElem (by omega), ?_⟩
    intro i
    obtain ⟨n, a, hn, hnle, ha, hcell⟩ := hgot i List.not_mem_nil
    obtain rfl : n = base := by omega
    rw [hcell, (List.getElem?_eq_some_iff.mp ha).2]

/-- An attempt is rejected only when a publication has begun since. -/
theorem reject (h : Sound layout q) {t : T} (ht : q.readers t = some reading)
    {left base : Nat} {before : BitVec 64} {got : ι → V}
    (hphase : reading.phase = .loading left before base [] got)
    (hdiffer : before ≠ q.memory.sequence) :
    Sound layout (q.advance t reading (.retry reading.given left)) := by
  have hold := (h.readings t reading ht).phase
  rw [hphase] at hold
  obtain ⟨hsince, hbase, hbefore, -⟩ := hold
  refine h.advance ht (justified_retry ?_ left)
  by_contra hquiet
  obtain ⟨hidle, hlast⟩ := (h.readings t reading ht).idle_of_quiet (by simpa using hquiet)
  apply hdiffer
  rw [hbefore, h.sequence_eq, Writer.marked_of_idle hidle, Nat.add_zero,
    Nat.le_antisymm hbase (hlast ▸ hsince)]

/-- Every step keeps the invariant. -/
theorem step {retries : Nat} {blank : ι → V} (h : Sound layout q)
    (hunambiguous : Unambiguous q) (hstep : Step layout retries blank q q') :
    Sound layout q' := by
  cases hstep with
  | publish value hidle => exact h.publish hidle value
  | mark hw => exact h.mark hw
  | store hw hi => exact h.store hw hi
  | unmark hw => exact h.unmark hw
  | read t given _ => exact h.read retries t given
  | busy ht _ hodd => exact h.busy ht _ hodd
  | attempt ht _ heven => exact h.attempt ht _ blank heven
  | load ht hphase _ => exact h.load ht hphase _
  | accept ht hphase hequal => exact h.accept hunambiguous ht hphase hequal
  | reject ht hphase hdiffer => exact h.reject ht hphase hdiffer

end Sound

/-! ## The initial state -/

/-- Nothing published yet, and no call made. -/
def State.initial (layout : Layout ι V α) (first : α) : State ι V α T where
  memory := ⟨0, layout.cells first⟩
  writer := .idle
  readers := fun _ => none
  history := [first]
  completed := 0

theorem Sound.initial (first : α) :
    Sound layout (State.initial layout first : State ι V α T) where
  length_history := rfl
  publishing := by
    intro value hvalue
    simp [State.initial, Writer.value] at hvalue
  sequence_eq := rfl
  nodup := by
    intro value rest hw
    simp [State.initial] at hw
  cells := fun i => ⟨first, rfl, rfl⟩
  readings := by
    intro t reading ht
    simp [State.initial] at ht

end Steps

end Seqlock

end RobotController.Foundation
