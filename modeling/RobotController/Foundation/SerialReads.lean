/-
  Foundation/SerialReads.lean --- reads that take turns.

  One thread that reads a buffer again and again, or several that exclude one
  another, obtain the publications in an order that never goes back: each read is at
  least as recent as what had been published when it began, and it began after the
  one before it had returned.
-/
import RobotController.Foundation.SeqlockProgram
import Mathlib.Data.List.Forall2

set_option autoImplicit false

namespace RobotController.Foundation

/-! ## What the steps of the clients leave alone -/

section Frame

variable {ι V α T : Type}

/-- The event is a step of a reader. -/
def BufferEvent.IsRead : BufferEvent α T → Prop
  | .read _ _ | .access _ => True
  | _ => False

namespace SharedBuffer

variable {s s' : SharedBuffer ι V α T}

/-- A history within the range of the sequence number rules out wrap-around. -/
theorem noWrap_of_length (h : s.history.length ≤ 2 ^ 63) : s.NoWrap := by
  intro t call base _ _
  omega

variable [DecidableEq ι]

theorem write_cases (h : s.write = some s') :
    s'.history = s.history ∧ s'.calls = s.calls ∧ s.completed ≤ s'.completed := by
  obtain ⟨⟨next, memory⟩, -, h⟩ := Option.bind_eq_some_iff.mp h
  obtain rfl := Option.some.inj h
  refine ⟨rfl, rfl, ?_⟩
  simp only
  split <;> omega

variable [DecidableEq T] {buffer : Buffer ι V α} {event : BufferEvent α T} {t : T}

theorem access_cases (h : s.access t = some s') :
    ∃ call program attempt, s.calls t = some call ∧ s'.history = s.history ∧
      s'.writer = s.writer ∧ s'.completed = s.completed ∧
      s'.calls = Function.update s.calls t
        (some { call with program := program, attempt := attempt }) := by
  obtain ⟨call, hcall, h⟩ := Option.bind_eq_some_iff.mp h
  obtain ⟨⟨next, memory⟩, -, h⟩ := Option.bind_eq_some_iff.mp h
  obtain rfl := Option.some.inj h
  exact ⟨call, _, _, hcall, rfl, rfl, rfl, rfl⟩

/-- A reader changes nothing the writer sees. -/
theorem Step.of_isRead (h : Step buffer s event s') (hevent : event.IsRead) :
    s'.history = s.history ∧ s'.isIdle = s.isIdle ∧ s'.completed = s.completed := by
  cases h with
  | publish value _ => exact hevent.elim
  | write _ => exact hevent.elim
  | read t given _ => exact ⟨rfl, rfl, rfl⟩
  | access t haccess =>
      obtain ⟨-, -, -, -, hhistory, hwriter, hcompleted, -⟩ := access_cases haccess
      exact ⟨hhistory, by rw [isIdle, isIdle, hwriter], hcompleted⟩

theorem Step.of_write (h : Step buffer s .write s') :
    s'.history = s.history ∧ s.completed ≤ s'.completed := by
  cases h with
  | write hwrite => exact ⟨(write_cases hwrite).1, (write_cases hwrite).2.2⟩

/-- An idle writer has nothing to write. -/
theorem Step.not_idle_of_write (h : Step buffer s .write s') : s.isIdle = false := by
  cases h with
  | write hwrite =>
      obtain ⟨⟨next, memory⟩, hstep, -⟩ := Option.bind_eq_some_iff.mp hwrite
      rw [isIdle]
      cases hwriter : s.writer with
      | done result =>
          rw [hwriter] at hstep
          cases hstep
      | _ => rfl

theorem Step.of_publish {value : α} (h : Step buffer s (.publish value) s') :
    s'.history = s.history ++ [value] ∧ s'.completed = s.completed ∧ s.isIdle = true := by
  cases h with
  | publish value hidle => exact ⟨rfl, rfl, hidle⟩

theorem Step.of_read {given : α} (h : Step buffer s (.read t given) s') :
    s'.calls t = some ⟨buffer.read given, s.completed, given, s.isIdle, none⟩ := by
  cases h with
  | read t given _ => exact Function.update_self ..

theorem Step.history_prefix (h : Step buffer s event s') : s.history <+: s'.history := by
  cases event with
  | publish value => rw [h.of_publish.1]; exact List.prefix_append _ _
  | write => exact h.of_write.1 ▸ List.prefix_rfl
  | read t given => exact (h.of_isRead trivial).1 ▸ List.prefix_rfl
  | access t => exact (h.of_isRead trivial).1 ▸ List.prefix_rfl

theorem Step.completed_le (h : Step buffer s event s') : s.completed ≤ s'.completed := by
  cases event with
  | publish value => exact h.of_publish.2.1.ge
  | write => exact h.of_write.2
  | read t given => exact (h.of_isRead trivial).2.2.ge
  | access t => exact (h.of_isRead trivial).2.2.ge

/-- A call stays the same call until its thread makes the next one, and undisturbed
until the writer begins a publication. -/
theorem Step.call_kept (h : Step buffer s event s') {call : Call ι V α}
    (ht : s.calls t = some call) (hother : ∀ given, event ≠ .read t given) :
    ∃ call', s'.calls t = some call' ∧ call'.since = call.since ∧
      ((∀ value, event ≠ .publish value) → call'.quiet = call.quiet) := by
  cases h with
  | publish value _ =>
      refine ⟨{ call with quiet := false }, ?_, rfl, fun hnone => absurd rfl (hnone value)⟩
      simp [beginPublish, ht]
  | write hwrite => exact ⟨call, by rw [(write_cases hwrite).2.1, ht], rfl, fun _ => rfl⟩
  | read u given _ =>
      have hne : t ≠ u := by
        rintro rfl
        exact hother given rfl
      exact ⟨call, by simp [beginRead, Function.update_of_ne hne, ht], rfl, fun _ => rfl⟩
  | access u haccess =>
      obtain ⟨own, program, attempt, hown, -, -, -, hcalls⟩ := access_cases haccess
      rcases eq_or_ne t u with rfl | hne
      · obtain rfl : call = own := Option.some.inj (ht.symm.trans hown)
        exact ⟨{ call with program := program, attempt := attempt },
          by rw [hcalls, Function.update_self], rfl, fun _ => rfl⟩
      · exact ⟨call, by rw [hcalls, Function.update_of_ne hne, ht], rfl, fun _ => rfl⟩

end SharedBuffer

end Frame

/-! ## Ascending reads -/

section Ascending

variable {α : Type} {history : List α} {reads : List (Nat × α)} {last value : α}
  {since bound : Nat}

/-- The reads, each given with the publications completed when it began and the
value it obtained, can be assigned entries of the history that never go back and are
as recent as required.  `last` is an entry no older than any of them, and no more
recent than `bound`. -/
def Ascending (history : List α) (reads : List (Nat × α)) (last : α) (bound : Nat) : Prop :=
  ∃ (indices : List Nat) (latest : Nat),
    List.Forall₂ (fun read n => read.1 ≤ n ∧ history[n]? = some read.2) reads indices ∧
      indices.Pairwise (· ≤ ·) ∧ (∀ n ∈ indices, n ≤ latest) ∧
      history[latest]? = some last ∧ latest ≤ bound

namespace Ascending

theorem initial (first : α) : Ascending [first] [] first 0 :=
  ⟨[], 0, .nil, .nil, by simp, rfl, Nat.le_refl 0⟩

/-- What a read has obtained is an entry. -/
theorem exists_entry (h : Ascending history reads last bound) {read : Nat × α}
    (hread : read ∈ reads) : ∃ n, read.1 ≤ n ∧ history[n]? = some read.2 := by
  obtain ⟨indices, latest, hreads, -⟩ := h
  obtain ⟨i, hi, rfl⟩ := List.getElem_of_mem hread
  exact ⟨_, hreads.get hi (hreads.length_eq ▸ hi)⟩

/-- More publications and a larger bound change nothing. -/
theorem mono {history' : List α} {bound' : Nat} (h : Ascending history reads last bound)
    (hextends : history <+: history') (hle : bound ≤ bound') :
    Ascending history' reads last bound' := by
  obtain ⟨indices, latest, hreads, hordered, hlatest, hlast, hbound⟩ := h
  have hentry : ∀ {n : Nat} {value : α}, history[n]? = some value → history'[n]? = some value := by
    intro n value hn
    obtain ⟨rest, rfl⟩ := hextends
    obtain ⟨hlt, -⟩ := List.getElem?_eq_some_iff.mp hn
    rwa [List.getElem?_append_left hlt]
  exact ⟨indices, latest, hreads.imp fun _ _ hread => ⟨hread.1, hentry hread.2⟩, hordered,
    hlatest, hentry hlast, Nat.le_trans hbound hle⟩

/-- One more read, of an entry at least as recent as the bound. -/
theorem read {n bound' : Nat} (h : Ascending history reads last bound) (hle : bound ≤ n)
    (hsince : since ≤ n) (hn : history[n]? = some value) (hbound' : n ≤ bound') :
    Ascending history (reads ++ [(since, value)]) value bound' := by
  obtain ⟨indices, latest, hreads, hordered, hlatest, -, hbound⟩ := h
  have hbefore : ∀ m ∈ indices, m ≤ n := fun m hm =>
    Nat.le_trans (hlatest m hm) (Nat.le_trans hbound hle)
  refine ⟨indices ++ [n], n, List.rel_append hreads (.cons ⟨hsince, hn⟩ .nil), ?_, ?_, hn,
    hbound'⟩
  · exact List.pairwise_append.mpr ⟨hordered, List.pairwise_singleton _ _, by simpa using hbefore⟩
  · intro m hm
    rcases List.mem_append.mp hm with hold | hnew
    · exact hbefore m hold
    · exact Nat.le_of_eq (List.mem_singleton.mp hnew)

/-- The last entry once more. -/
theorem again (h : Ascending history reads last bound) :
    Ascending history (reads ++ [(0, last)]) last bound := by
  obtain ⟨indices, latest, hreads, hordered, hlatest, hlast, hbound⟩ := h
  refine ⟨indices ++ [latest], latest, List.rel_append hreads (.cons ⟨Nat.zero_le _, hlast⟩ .nil),
    ?_, ?_, hlast, hbound⟩
  · exact List.pairwise_append.mpr ⟨hordered, List.pairwise_singleton _ _, by simpa using hlatest⟩
  · intro m hm
    rcases List.mem_append.mp hm with hold | hnew
    · exact hlatest m hold
    · exact Nat.le_of_eq (List.mem_singleton.mp hnew)

/-- Reads that are past the first of two entries obtain the second. -/
theorem past_first {first second : α} {indices : List Nat}
    (h : List.Forall₂ (fun read n => read.1 ≤ n ∧ [first, second][n]? = some read.2) reads indices)
    (hpast : ∀ n ∈ indices, 1 ≤ n) :
    reads.map Prod.snd = List.replicate reads.length second := by
  induction h with
  | nil => rfl
  | @cons read n reads indices hread _ ih =>
      rw [List.forall_mem_cons] at hpast
      obtain ⟨hlt, hvalue⟩ := List.getElem?_eq_some_iff.mp hread.2
      obtain rfl : n = 1 := Nat.le_antisymm (Nat.le_of_lt_succ hlt) hpast.1
      rw [List.map_cons, ih hpast.2, ← hvalue]
      rfl

/-- Reads of two entries obtain the first for a while, and then the second. -/
theorem switch {first second : α} (h : Ascending [first, second] reads last bound) :
    ∃ k l, reads.map Prod.snd = List.replicate k first ++ List.replicate l second := by
  obtain ⟨indices, -, hreads, hordered, -⟩ := h
  induction hreads with
  | nil => exact ⟨0, 0, rfl⟩
  | @cons read n reads indices hread hrest ih =>
      rw [List.pairwise_cons] at hordered
      obtain ⟨hlater, hordered⟩ := hordered
      rcases Nat.eq_zero_or_pos n with rfl | hpos
      · obtain ⟨k, l, hsame⟩ := ih hordered
        exact ⟨k + 1, l, by rw [List.map_cons, hsame, ← Option.some.inj hread.2]; rfl⟩
      · have hpast := past_first (.cons hread hrest)
          (List.forall_mem_cons.mpr ⟨hpos, fun m hm => Nat.le_trans hpos (hlater m hm)⟩)
        exact ⟨0, _, hpast.trans (List.nil_append _).symm⟩

end Ascending

end Ascending

/-! ## Readers that take turns -/

namespace SharedBuffer

section Serial

variable {ι V α T : Type}

/-- The reads made so far under the name `t` are ascending, and so will they be with
the one in progress, if there is one. -/
def Serial (s : SharedBuffer ι V α T) (t : T) (reading : Prop) (reads : List (Nat × α))
    (last : α) : Prop :=
  Ascending s.history reads last s.completed ∧
    (reading → ∃ call, s.calls t = some call ∧ Ascending s.history reads last call.since)

namespace Serial

theorem initial (memory : Memory ι V) (first : α) (t : T) {reading : Prop} (hnone : ¬ reading) :
    (SharedBuffer.initial memory first : SharedBuffer ι V α T).Serial t reading [] first :=
  ⟨Ascending.initial first, fun h => absurd h hnone⟩

variable {s s' : SharedBuffer ι V α T} {t : T} {reading : Prop} {reads : List (Nat × α)}
  {last out : α} {call : Call ι V α}

/-- A read has ended without a value. -/
theorem stop (h : s.Serial t reading reads last) {reading' : Prop} (hnone : ¬ reading') :
    s.Serial t reading' reads last :=
  ⟨h.1, fun h => absurd h hnone⟩

/-- A read has ended, and the last value serves once more. -/
theorem again (h : s.Serial t reading reads last) {reading' : Prop} (hnone : ¬ reading') :
    s.Serial t reading' (reads ++ [(0, last)]) last :=
  ⟨h.1.again, fun h => absurd h hnone⟩

variable [DecidableEq ι]

/-- A read has ended with a value. -/
theorem succeed {layout : Layout ι V α} {orders : Seqlock.Orders} {blank : ι → V}
    (h : s.Serial t reading reads last) (hreading : reading)
    (href : Seqlock.Refines layout orders blank s) (hcall : s.calls t = some call)
    (hresult : call.result = some (true, out)) {reading' : Prop} (hnone : ¬ reading') :
    s.Serial t reading' (reads ++ [(call.since, out)]) out := by
  obtain ⟨own, hown, hascending⟩ := h.2 hreading
  obtain rfl : own = call := Option.some.inj (hown.symm.trans hcall)
  obtain ⟨n, hsince, hle, hn⟩ := href.of_true hcall hresult
  exact ⟨hascending.read hsince hsince hn hle, fun h => absurd h hnone⟩

variable [DecidableEq T] {buffer : Buffer ι V α} {event : BufferEvent α T}

/-- The steps of others, and the accesses of the read itself. -/
theorem step (h : s.Serial t reading reads last) (hstep : Step buffer s event s')
    (hother : ∀ given, event ≠ .read t given) : s'.Serial t reading reads last := by
  refine ⟨h.1.mono hstep.history_prefix hstep.completed_le, fun hreading => ?_⟩
  obtain ⟨call, hcall, hascending⟩ := h.2 hreading
  obtain ⟨call', hcall', hsince, -⟩ := hstep.call_kept hcall hother
  exact ⟨call', hcall', hascending.mono hstep.history_prefix (Nat.le_of_eq hsince.symm)⟩

/-- A read begins. -/
theorem start {given : α} (h : s.Serial t reading reads last)
    (hstep : Step buffer s (.read t given) s') {reading' : Prop} :
    s'.Serial t reading' reads last :=
  ⟨h.1.mono hstep.history_prefix hstep.completed_le,
    fun _ => ⟨_, hstep.of_read, h.1.mono hstep.history_prefix (Nat.le_refl _)⟩⟩

end Serial

end Serial

/-! ## Undisturbed reads -/

section Quiet

variable {ι V α T : Type}

/-- The writer has been idle ever since `t` began its last read. -/
def Quiet (s : SharedBuffer ι V α T) (t : T) : Prop :=
  ∃ call, s.calls t = some call ∧ call.quiet = true

variable [DecidableEq ι] {s s' : SharedBuffer ι V α T} {t : T}

/-- An undisturbed read obtains the latest publication. -/
theorem Quiet.eq {layout : Layout ι V α} {orders : Seqlock.Orders} {blank : ι → V}
    (h : s.Quiet t) (href : Seqlock.Refines layout orders blank s) {call : Call ι V α}
    (hcall : s.calls t = some call) {read : Bool × α} (hresult : call.result = some read) :
    read.1 = true ∧ s.history.getLast? = some read.2 := by
  obtain ⟨own, hown, hquiet⟩ := h
  obtain rfl : own = call := Option.some.inj (hown.symm.trans hcall)
  obtain ⟨hok, hlatest, hlength⟩ := href.of_quiet hcall hquiet hresult
  refine ⟨hok, ?_⟩
  rw [List.getLast?_eq_getElem?, hlength]
  exact hlatest

variable [DecidableEq T] {buffer : Buffer ι V α} {event : BufferEvent α T}

theorem Quiet.start {given : α} (hstep : Step buffer s (.read t given) s')
    (hidle : s.isIdle = true) : s'.Quiet t :=
  ⟨_, hstep.of_read, hidle⟩

/-- With the writer idle only a publication disturbs a read. -/
theorem Quiet.step (h : s.Quiet t) (hstep : Step buffer s event s') (hidle : s.isIdle = true)
    (hpublish : ∀ value, event ≠ .publish value) : s'.Quiet t := by
  by_cases hread : ∃ given, event = .read t given
  · obtain ⟨given, rfl⟩ := hread
    exact .start hstep hidle
  · obtain ⟨call, hcall, hquiet⟩ := h
    obtain ⟨call', hcall', -, hkept⟩ := hstep.call_kept hcall fun given heq => hread ⟨given, heq⟩
    exact ⟨call', hcall', (hkept hpublish).trans hquiet⟩

end Quiet

end SharedBuffer

end RobotController.Foundation
