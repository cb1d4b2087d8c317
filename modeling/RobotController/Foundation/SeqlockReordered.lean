/-
  Foundation/SeqlockReordered.lean --- sequence locks with reordered accesses.

  In an orderly run only the cells may be accessed out of program order, and the
  machine of `Seqlock.lean` visits them in any order anyway: what has taken effect
  is a state of that machine, and the accesses still pending are the beginning of
  what the programs left over from it issue.  That is the invariant `Tracks`.
-/
import RobotController.Foundation.Reordering

set_option autoImplicit false

namespace RobotController.Foundation

/-! ## Pending accesses -/

/-- The accesses lead from one program to another, across the calls that return
in between; `Restart call result program` says that the call after `call`, which
returned `result`, runs `program`. -/
inductive Chain {ι V β : Type} (Restart : Nat → β → Program ι V β → Prop) :
    Nat → Program ι V β → List (Nat × Access ι V) → Nat → Program ι V β → Prop where
  | nil (call : Nat) (program : Program ι V β) : Chain Restart call program [] call program
  | issue {call last : Nat} {program next final : Program ι V β} {access : Access ι V}
      {rest : List (Nat × Access ι V)} :
      program.Issues access next → Chain Restart call next rest last final →
      Chain Restart call program ((call, access) :: rest) last final
  | restart {call last : Nat} {result : β} {next final : Program ι V β}
      {rest : List (Nat × Access ι V)} :
      Restart call result next → Chain Restart (call + 1) next rest last final →
      Chain Restart call (.done result) rest last final

namespace Chain

variable {ι V β : Type} {Restart : Nat → β → Program ι V β → Prop}
  {call last : Nat} {program next final : Program ι V β} {access : Access ι V}
  {pending : List (Nat × Access ι V)}

theorem mono (Restart' : Nat → β → Program ι V β → Prop)
    (hle : ∀ call result next, Restart call result next → Restart' call result next)
    (h : Chain Restart call program pending last final) :
    Chain Restart' call program pending last final := by
  induction h with
  | nil call program => exact .nil call program
  | issue hissues _ ih => exact .issue hissues ih
  | restart hrestart _ ih => exact .restart (hle _ _ _ hrestart) ih

/-- Issuing one more access. -/
theorem snoc (h : Chain Restart call program pending last final)
    (hissues : final.Issues access next) :
    Chain Restart call program (pending ++ [(last, access)]) last next := by
  induction h with
  | nil call program => exact .issue hissues (.nil call next)
  | issue hfirst _ ih => exact .issue hfirst (ih hissues)
  | restart hrestart _ ih => exact .restart hrestart (ih hissues)

/-- Beginning one more call. -/
theorem snocRestart {result : β} (h : Chain Restart call program pending last (.done result))
    (hrestart : Restart last result next) :
    Chain Restart call program pending (last + 1) next := by
  generalize hfinal : Program.done result = final at h
  induction h with
  | nil call program =>
      subst hfinal
      exact .restart hrestart (.nil (call + 1) next)
  | issue hfirst _ ih => exact .issue hfirst (ih hrestart hfinal)
  | restart hfirst _ ih => exact .restart hfirst (ih hrestart hfinal)

theorem le (h : Chain Restart call program pending last final) : call ≤ last := by
  induction h with
  | nil => exact le_refl _
  | issue _ _ ih => exact ih
  | restart _ _ ih => exact (Nat.le_succ _).trans ih

/-- The head of what is pending: an access of the current call, or the current
call has returned. -/
theorem head {index : Nat}
    (h : Chain Restart call program ((index, access) :: pending) last final) :
    (index = call ∧ ∃ next, program.Issues access next ∧
        Chain Restart call next pending last final) ∨
      ∃ result next, program = .done result ∧ Restart call result next ∧
        Chain Restart (call + 1) next ((index, access) :: pending) last final := by
  cases h with
  | issue hissues hrest => exact .inl ⟨rfl, _, hissues, hrest⟩
  | restart hrestart hrest => exact .inr ⟨_, _, rfl, hrestart, hrest⟩

end Chain

namespace Seqlock

variable {ι V α : Type} {layout : Layout ι V α} {orders : Orders}
  {blank : ι → V} {retries : Nat} {buffer : Buffer ι V α}

/-! ## The writer's pending accesses -/

section Writer

variable {call last : Nat} {final : Program ι V Unit} {value : α} {rest : List ι}
  {Restart : Nat → Unit → Program ι V Unit → Prop}
  {pending front back : List (Nat × Access ι V)}

theorem issues_storeCells {access : Access ι V} {next : Program ι V Unit}
    (h : (storeCells layout orders value rest).Issues access next) :
    (rest = [] ∧ access = .fetchAdd orders.unmark ∧ next = .done ()) ∨
      ∃ i others, rest = i :: others ∧ access = .store i (layout.cells value i) orders.store ∧
        next = storeCells layout orders value others := by
  cases rest with
  | nil =>
      cases h
      exact .inl ⟨rfl, rfl, rfl⟩
  | cons i others =>
      cases h
      exact .inr ⟨i, others, rfl, rfl, rfl⟩

/-- An increment issued before all the stores ahead of it have taken effect is the
one that ends their publication. -/
theorem unmark_of_stores {index : Nat} {order : MemoryOrder}
    (hstores : ∀ entry ∈ front, entry.2.isFetchAdd = false)
    (h : Chain Restart call (storeCells layout orders value rest)
      (front ++ (index, .fetchAdd order) :: back) last final) :
    order = orders.unmark := by
  induction front generalizing rest with
  | nil =>
      rcases h.head with ⟨-, next, hissues, -⟩ | ⟨result, next, hdone, -⟩
      · rcases issues_storeCells hissues with ⟨-, haccess, -⟩ | ⟨i, others, -, haccess, -⟩
        · exact Access.fetchAdd.inj haccess
        · cases haccess
      · cases rest <;> cases hdone
  | cons entry front ih =>
      obtain ⟨index', access⟩ := entry
      rcases h.head with ⟨-, next, hissues, hrest⟩ | ⟨result, next, hdone, -⟩
      · rcases issues_storeCells hissues with ⟨-, rfl, -⟩ | ⟨i, others, -, -, rfl⟩
        · simpa [Access.isFetchAdd] using hstores _ List.mem_cons_self
        · exact ih (fun entry hentry => hstores entry (List.mem_cons_of_mem _ hentry)) hrest
      · cases rest <;> cases hdone

/-- A store that takes effect before the stores ahead of it is one of the same
publication, and leaves the others pending. -/
theorem store_of_stores [DecidableEq ι] {index : Nat} {cell : ι} {x : V} {order : MemoryOrder}
    (hfront : ∀ entry ∈ front, entry.2.isFetchAdd = false ∧ entry.2.variable_ ≠ some cell)
    (h : Chain Restart call (storeCells layout orders value rest)
      (front ++ (index, .store cell x order) :: back) last final) :
    cell ∈ rest ∧ x = layout.cells value cell ∧
      Chain Restart call (storeCells layout orders value (rest.erase cell)) (front ++ back)
        last final := by
  induction front generalizing rest with
  | nil =>
      rcases h.head with ⟨-, next, hissues, hrest⟩ | ⟨result, next, hdone, -⟩
      · rcases issues_storeCells hissues with ⟨-, haccess, -⟩ | ⟨i, others, rfl, haccess, rfl⟩
        · cases haccess
        · obtain ⟨rfl, rfl, -⟩ := Access.store.inj haccess
          rw [List.erase_cons_head]
          exact ⟨List.mem_cons_self, rfl, hrest⟩
      · cases rest <;> cases hdone
  | cons entry front ih =>
      obtain ⟨index', access⟩ := entry
      rcases h.head with ⟨rfl, next, hissues, hrest⟩ | ⟨result, next, hdone, -⟩
      · rcases issues_storeCells hissues with ⟨-, rfl, -⟩ | ⟨i, others, rfl, rfl, rfl⟩
        · simpa [Access.isFetchAdd] using (hfront _ List.mem_cons_self).1
        · have hne : i ≠ cell := fun he =>
            (hfront _ List.mem_cons_self).2 (congrArg some he)
          obtain ⟨hmem, hx, hchain⟩ :=
            ih (fun entry hentry => hfront entry (List.mem_cons_of_mem _ hentry)) hrest
          refine ⟨List.mem_cons_of_mem _ hmem, hx, ?_⟩
          rw [List.erase_cons_tail (by simpa using hne)]
          exact .issue .store hchain
      · cases rest <;> cases hdone

end Writer

/-- What the programs of a writer issue. -/
theorem Writer.issues_code {writer : Writer ι α} {access : Access ι V}
    {next : Program ι V Unit} (h : (writer.code layout orders).Issues access next) :
    (access.isFetchAdd = true ∨ access.isStore = true) ∧
      ∃ writer' : Writer ι α, next = writer'.code layout orders := by
  cases writer with
  | idle => cases h
  | marking value =>
      cases h
      exact ⟨.inl rfl, .storing value layout.order, rfl⟩
  | storing value rest =>
      rcases issues_storeCells h with ⟨-, rfl, rfl⟩ | ⟨i, others, -, rfl, rfl⟩
      · exact ⟨.inl rfl, .idle, rfl⟩
      · exact ⟨.inr rfl, .storing value others, rfl⟩

/-- Calls of `publish`, with the values published. -/
def PublishRestart (buffer : Buffer ι V α) (published : List α) :
    Nat → Unit → Program ι V Unit → Prop :=
  fun _ _ next => ∃ value ∈ published, next = buffer.publish value

variable [DecidableEq ι]

/-- What a writer issues, it increments the sequence with or stores. -/
theorem writer_pending (himplements : Implements layout orders blank retries buffer)
    {published : List α} {call last : Nat} {program final : Program ι V Unit}
    {pending : List (Nat × Access ι V)}
    (h : Chain (PublishRestart buffer published) call program pending last final)
    {writer : Writer ι α} (hcode : program = writer.code layout orders) :
    ∀ entry ∈ pending, entry.2.isFetchAdd = true ∨ entry.2.isStore = true := by
  induction h generalizing writer with
  | nil => simp
  | issue hissues _ ih =>
      subst hcode
      obtain ⟨haccess, writer', hnext⟩ := Writer.issues_code hissues
      intro entry hentry
      rcases List.mem_cons.mp hentry with rfl | hentry
      · exact haccess
      · exact ih hnext entry hentry
  | restart hrestart _ ih =>
      obtain ⟨value, -, rfl⟩ := hrestart
      exact ih (himplements.publish value)

/-! ## The reader's pending accesses -/

section Reader

variable {call last left : Nat} {final : Program ι V (Bool × α)} {given : α}
  {before : BitVec 64} {again : Program ι V (Bool × α)} {rest : List ι} {got : ι → V}
  {Restart : Nat → Bool × α → Program ι V (Bool × α) → Prop}
  {access : Access ι V} {next : Program ι V (Bool × α)}
  {pending front back : List (Nat × Access ι V)}

theorem issues_loadCells
    (h : (loadCells layout orders before again rest got).Issues access next) :
    (rest = [] ∧ ∃ value, access = .loadSequence orders.after value ∧
        next = if before = value then .done (true, layout.value got) else again) ∨
      ∃ i others x, rest = i :: others ∧ access = .load i orders.load x ∧
        next = loadCells layout orders before again others (Function.update got i x) := by
  cases rest with
  | nil =>
      cases h with
      | loadSequence value => exact .inl ⟨rfl, value, rfl, rfl⟩
  | cons i others =>
      cases h with
      | load x => exact .inr ⟨i, others, x, rfl, rfl, rfl⟩

theorem issues_attempts
    (h : (attempts layout orders blank given left).Issues access next) :
    ∃ fewer value, left = fewer + 1 ∧ access = .loadSequence orders.before value ∧
      next = if value &&& 1 = 0 then
          loadCells layout orders value (attempts layout orders blank given fewer)
            layout.order blank
        else attempts layout orders blank given fewer := by
  cases left with
  | zero => cases h
  | succ fewer =>
      cases h with
      | loadSequence value => exact ⟨fewer, value, rfl, rfl, rfl⟩

/-- A load that takes effect before the loads ahead of it is one of the same
attempt, and leaves the others pending. -/
theorem load_of_loads {index : Nat} {cell : ι} {x : V} {order : MemoryOrder}
    (hfront : ∀ entry ∈ front, entry.2.isLoadSequence = false ∧ entry.2.variable_ ≠ some cell)
    (h : Chain Restart call (loadCells layout orders before again rest got)
      (front ++ (index, .load cell order x) :: back) last final) :
    cell ∈ rest ∧
      Chain Restart call
        (loadCells layout orders before again (rest.erase cell) (Function.update got cell x))
        (front ++ back) last final := by
  induction front generalizing rest got with
  | nil =>
      rcases h.head with ⟨-, next, hissues, hrest⟩ | ⟨result, next, hdone, -⟩
      · rcases issues_loadCells hissues with
          ⟨-, value, haccess, -⟩ | ⟨i, others, y, rfl, haccess, rfl⟩
        · cases haccess
        · obtain ⟨rfl, -, rfl⟩ := Access.load.inj haccess
          rw [List.erase_cons_head]
          exact ⟨List.mem_cons_self, hrest⟩
      · cases rest <;> cases hdone
  | cons entry front ih =>
      obtain ⟨index', access⟩ := entry
      rcases h.head with ⟨rfl, next, hissues, hrest⟩ | ⟨result, next, hdone, -⟩
      · rcases issues_loadCells hissues with ⟨-, value, rfl, -⟩ | ⟨i, others, y, rfl, rfl, rfl⟩
        · simpa [Access.isLoadSequence] using (hfront _ List.mem_cons_self).1
        · have hne : i ≠ cell := fun he =>
            (hfront _ List.mem_cons_self).2 (congrArg some he)
          obtain ⟨hmem, hchain⟩ :=
            ih (fun entry hentry => hfront entry (List.mem_cons_of_mem _ hentry)) hrest
          refine ⟨List.mem_cons_of_mem _ hmem, ?_⟩
          rw [List.erase_cons_tail (by simpa using hne)]
          refine .issue (.load y) ?_
          rwa [Function.update_comm (Ne.symm hne)]
      · cases rest <;> cases hdone

/-- What the programs of a reader issue. -/
theorem Phase.issues_code (hbefore : orders.before.acquires = true)
    (hafter : orders.after.acquires = true) {phase : Phase ι V α}
    (h : (phase.code layout orders blank given).Issues access next) :
    (access.isLoad = true ∨ access.isLoadSequence = true ∧ access.acquires = true) ∧
      ∃ phase' : Phase ι V α, next = phase'.code layout orders blank given := by
  cases phase with
  | returned ok out => cases h
  | attempting left =>
      obtain ⟨fewer, value, hleft, rfl, rfl⟩ := issues_attempts h
      refine ⟨.inr ⟨rfl, hbefore⟩, ?_⟩
      by_cases hparity : value &&& 1 = 0
      · rw [if_pos hparity]
        exact ⟨.loading fewer value 0 layout.order blank, rfl⟩
      · rw [if_neg hparity]
        exact ⟨.retry given fewer, (Phase.code_retry given fewer).symm⟩
  | loading left before base rest got =>
      rcases issues_loadCells h with ⟨-, value, rfl, rfl⟩ | ⟨i, others, x, -, rfl, rfl⟩
      · refine ⟨.inr ⟨rfl, hafter⟩, ?_⟩
        by_cases hequal : before = value
        · rw [if_pos hequal]
          exact ⟨.returned true (layout.value got), rfl⟩
        · rw [if_neg hequal]
          exact ⟨.retry given left, (Phase.code_retry given left).symm⟩
      · exact ⟨.inl rfl, .loading left before base others (Function.update got i x), rfl⟩

end Reader

/-- Calls of `read`, after one that returned what is recorded. -/
def ReadRestart (buffer : Buffer ι V α) (results : List (Bool × α)) :
    Nat → Bool × α → Program ι V (Bool × α) → Prop :=
  fun call result next => results[call]? = some result ∧ ∃ given, next = buffer.read given

/-- What a reader issues is a load of a cell or an acquiring load of the
sequence. -/
theorem reader_pending (himplements : Implements layout orders blank retries buffer)
    (hbefore : orders.before.acquires = true) (hafter : orders.after.acquires = true)
    {results : List (Bool × α)} {call last : Nat} {program final : Program ι V (Bool × α)}
    {pending : List (Nat × Access ι V)}
    (h : Chain (ReadRestart buffer results) call program pending last final)
    {given : α} {phase : Phase ι V α}
    (hcode : program = phase.code layout orders blank given) :
    ∀ entry ∈ pending, entry.2.isLoad = true ∨
      entry.2.isLoadSequence = true ∧ entry.2.acquires = true := by
  induction h generalizing given phase with
  | nil => simp
  | issue hissues _ ih =>
      subst hcode
      obtain ⟨haccess, phase', hnext⟩ := Phase.issues_code hbefore hafter hissues
      intro entry hentry
      rcases List.mem_cons.mp hentry with rfl | hentry
      · exact haccess
      · exact ih hnext entry hentry
  | restart hrestart _ ih =>
      obtain ⟨-, given', rfl⟩ := hrestart
      have hread : buffer.read given' =
          (Phase.attempting retries).code layout orders blank given' := himplements.read given'
      exact ih hread

/-! ## The invariant -/

/-- What has taken effect is the state `q` of the machine, where the writer is in
its call `writing` and the reader in its call `reading`, the reading `r`; the
pending accesses lead from there to the programs of the threads. -/
structure Tracks (layout : Layout ι V α) (orders : Orders) (blank : ι → V)
    (buffer : Buffer ι V α) (first : α) (s : Reordered ι V α) (q : State ι V α Unit)
    (writing reading : Nat) (r : Reading ι V α) : Prop where
  sound : Sound layout q
  memory : q.memory = s.memory
  not_marking : ∀ value, q.writer ≠ .marking value
  writer : Chain (PublishRestart buffer s.published) writing (q.writer.code layout orders)
    s.writer.pending s.writer.results.length s.writer.program
  current : q.readers () = some r
  reader : Chain (ReadRestart buffer s.reader.results) reading
    (r.phase.code layout orders blank r.given) s.reader.pending s.reader.results.length
    s.reader.program
  increments : s.increments = 2 * q.completed + q.writer.marked
  attempt : s.attempt = r.attempt.map (2 * ·)
  history : ∀ a ∈ q.history, a = first ∨ a ∈ s.published
  earlier : ∀ call < reading, ∀ out, s.reader.results[call]? = some (true, out) →
    out = first ∨ out ∈ s.published

/-- Some state of the machine has taken effect. -/
def Tracked (layout : Layout ι V α) (orders : Orders) (blank : ι → V) (buffer : Buffer ι V α)
    (first : α) (s : Reordered ι V α) : Prop :=
  ∃ q writing reading r, Tracks layout orders blank buffer first s q writing reading r

section Steps

variable {first : α} {s : Reordered ι V α} {q : State ι V α Unit} {writing reading : Nat}
  {r : Reading ι V α}

namespace Tracks

theorem begun_eq (h : Tracks layout orders blank buffer first s q writing reading r) :
    q.writer.begun = q.writer.marked := by
  cases hw : q.writer with
  | idle => rfl
  | marking value => exact absurd hw (h.not_marking value)
  | storing value rest => rfl

/-- The guard of the run is the guard of the machine. -/
theorem unambiguous (h : Tracks layout orders blank buffer first s q writing reading r)
    (hwrap : s.NoWrap) : Unambiguous q := by
  refine .inr fun _ reading' base ht hbase => ?_
  obtain rfl : r = reading' := Option.some.inj (h.current.symm.trans ht)
  have hspan := hwrap (2 * base) (by rw [h.attempt, hbase]; rfl)
  have hlength := h.sound.length_history
  have hle := q.writer.marked_le_one
  rw [h.increments] at hspan
  rw [h.begun_eq] at hlength
  omega

theorem initial (himplements : Implements layout orders blank retries buffer) (given : α) :
    Tracks layout orders blank buffer first
      (Reordered.initial buffer ⟨0, layout.cells first⟩ given)
      ((State.initial layout first).read retries () given) 0 0
      ⟨0, given, true, .attempting retries⟩ where
  sound := (Sound.initial first).read retries () given
  memory := rfl
  not_marking := fun _ h => by cases h
  writer := .nil 0 (.done ())
  current := rfl
  reader := by
    have hread : buffer.read given =
        (Phase.attempting retries).code layout orders blank given := himplements.read given
    rw [← hread]
    exact .nil 0 _
  increments := rfl
  attempt := rfl
  history := fun a ha => .inl (List.mem_singleton.mp ha)
  earlier := fun _ hcall => absurd hcall (Nat.not_lt_zero _)

/-! ### Calls and issues -/

theorem publish (h : Tracks layout orders blank buffer first s q writing reading r) (value : α)
    (hidle : s.writer.program = .done ()) :
    Tracks layout orders blank buffer first
      { s with
        writer := s.writer.begin () (buffer.publish value)
        published := s.published ++ [value] } q writing reading r where
  sound := h.sound
  memory := h.memory
  not_marking := h.not_marking
  writer := by
    have hwriter := h.writer
    rw [hidle] at hwriter
    have hmore := hwriter.mono (PublishRestart buffer (s.published ++ [value]))
      fun _ _ _ ⟨v, hv, hnext⟩ => ⟨v, List.mem_append_left _ hv, hnext⟩
    have hnew := hmore.snocRestart ⟨value, by simp, rfl⟩
    simpa [Thread.begin] using hnew
  current := h.current
  reader := h.reader
  increments := h.increments
  attempt := h.attempt
  history := fun a ha => (h.history a ha).imp id (List.mem_append_left _)
  earlier := fun call hcall out hout =>
    (h.earlier call hcall out hout).imp id (List.mem_append_left _)

theorem read (h : Tracks layout orders blank buffer first s q writing reading r)
    {result : Bool × α} (given : α) (hdone : s.reader.program = .done result) :
    Tracks layout orders blank buffer first
      { s with reader := s.reader.begin result (buffer.read given) } q writing reading r where
  sound := h.sound
  memory := h.memory
  not_marking := h.not_marking
  writer := h.writer
  current := h.current
  reader := by
    have hreader := h.reader
    rw [hdone] at hreader
    have hmore := hreader.mono (ReadRestart buffer (s.reader.results ++ [result]))
      fun call _ _ ⟨hresult, hnext⟩ => by
        refine ⟨?_, hnext⟩
        obtain ⟨hlt, -⟩ := List.getElem?_eq_some_iff.mp hresult
        rwa [List.getElem?_append_left hlt]
    have hnew := hmore.snocRestart ⟨by simp, given, rfl⟩
    simpa [Thread.begin] using hnew
  increments := h.increments
  attempt := h.attempt
  history := h.history
  earlier := by
    intro call hcall out hout
    have hlt : call < s.reader.results.length := Nat.lt_of_lt_of_le hcall h.reader.le
    refine h.earlier call hcall out ?_
    rwa [Thread.begin, List.getElem?_append_left hlt] at hout

theorem issueWriter (h : Tracks layout orders blank buffer first s q writing reading r)
    {access : Access ι V} {next : Program ι V Unit}
    (hissues : s.writer.program.Issues access next) :
    Tracks layout orders blank buffer first { s with writer := s.writer.issue access next } q
      writing reading r :=
  { h with writer := h.writer.snoc hissues }

theorem issueReader (h : Tracks layout orders blank buffer first s q writing reading r)
    {access : Access ι V} {next : Program ι V (Bool × α)}
    (hissues : s.reader.program.Issues access next) :
    Tracks layout orders blank buffer first { s with reader := s.reader.issue access next } q
      writing reading r :=
  { h with reader := h.reader.snoc hissues }

/-! ### Accesses of the writer that take effect -/

/-- Between two publications the first pending access marks the next one. -/
theorem chain_idle (himplements : Implements layout orders blank retries buffer)
    {published : List α} {call last index : Nat} {access : Access ι V}
    {rest : List (Nat × Access ι V)} {final : Program ι V Unit}
    (h : Chain (PublishRestart buffer published) call
      ((Writer.idle : Writer ι α).code layout orders) ((index, access) :: rest) last final) :
    ∃ value ∈ published, access = .fetchAdd orders.mark ∧
      Chain (PublishRestart buffer published) (call + 1)
        ((Writer.storing value layout.order).code layout orders) rest last final := by
  rcases h.head with ⟨-, next, hissues, -⟩ | ⟨result, next, -, ⟨value, hvalue, rfl⟩, hrest⟩
  · cases hissues
  · rw [himplements.publish value] at hrest
    rcases hrest.head with ⟨-, next, hissues, htail⟩ | ⟨result, next, hdone, -⟩
    · cases hissues
      exact ⟨value, hvalue, rfl, htail⟩
    · cases hdone

theorem writerStore (himplements : Implements layout orders blank retries buffer)
    (h : Tracks layout orders blank buffer first s q writing reading r) {index : Nat}
    {cell : ι} {x : V} {order : MemoryOrder} {front back : List (Nat × Access ι V)}
    (hpending : s.writer.pending = front ++ (index, .store cell x order) :: back)
    (hfront : ∀ entry ∈ front, entry.2.isFetchAdd = false ∧ entry.2.variable_ ≠ some cell) :
    ∃ q', Tracks layout orders blank buffer first
      { s with
        memory := { s.memory with cells := Function.update s.memory.cells cell x }
        writer := { s.writer with pending := front ++ back } } q' writing reading r := by
  have hchain := h.writer
  rw [hpending] at hchain
  cases hw : q.writer with
  | marking value => exact absurd hw (h.not_marking value)
  | idle =>
      -- the first pending access would have to be an increment
      rw [hw] at hchain
      cases front with
      | nil =>
          obtain ⟨value, -, haccess, -⟩ := chain_idle himplements hchain
          cases haccess
      | cons entry front =>
          obtain ⟨value, -, haccess, -⟩ := chain_idle himplements hchain
          have hfirst := (hfront entry List.mem_cons_self).1
          rw [haccess, Access.isFetchAdd] at hfirst
          cases hfirst
  | storing value rest =>
      rw [hw] at hchain
      obtain ⟨hmem, rfl, hrest⟩ := store_of_stores hfront hchain
      exact ⟨q.store layout value rest cell,
        { h with
          sound := h.sound.store hw hmem
          memory := by rw [← h.memory]; rfl
          not_marking := fun _ hmarking => by cases hmarking
          writer := hrest
          increments := by rw [h.increments, hw]; rfl }⟩

theorem writerFetchAdd (himplements : Implements layout orders blank retries buffer)
    (hunmark : orders.unmark.releases = true)
    (h : Tracks layout orders blank buffer first s q writing reading r) {index : Nat}
    {order : MemoryOrder} {front back : List (Nat × Access ι V)}
    (hpending : s.writer.pending = front ++ (index, .fetchAdd order) :: back)
    (hfront : ∀ entry ∈ front, entry.2.isFetchAdd = false)
    (hreleases : order.releases = true → front = []) :
    ∃ q' writing' r', Tracks layout orders blank buffer first
      { s with
        memory := { s.memory with sequence := s.memory.sequence + 1 }
        writer := { s.writer with pending := front ++ back }
        increments := s.increments + 1 } q' writing' reading r' := by
  have hchain := h.writer
  rw [hpending] at hchain
  cases hw : q.writer with
  | marking value => exact absurd hw (h.not_marking value)
  | idle =>
      rw [hw] at hchain
      cases front with
      | nil =>
          obtain ⟨value, hvalue, -, hrest⟩ := chain_idle himplements hchain
          have hmarking : (q.publish value).writer = .marking value := rfl
          refine ⟨(q.publish value).mark layout value, writing + 1, r.disturb,
            { h with
              sound := (h.sound.publish hw value).mark hmarking
              memory := by rw [← h.memory]; rfl
              not_marking := fun _ hmarking => by cases hmarking
              writer := hrest
              current := by
                change (q.readers ()).map Reading.disturb = some r.disturb
                rw [h.current, Option.map_some]
              increments := by rw [h.increments, hw]; rfl
              history := ?_ }⟩
          intro a ha
          rcases List.mem_append.mp ha with hold | hnew
          · exact h.history a hold
          · exact .inr (List.mem_singleton.mp hnew ▸ hvalue)
      | cons entry front =>
          obtain ⟨value, -, haccess, -⟩ := chain_idle himplements hchain
          have hfirst := hfront entry List.mem_cons_self
          rw [haccess, Access.isFetchAdd] at hfirst
          cases hfirst
  | storing value rest =>
      rw [hw] at hchain
      obtain rfl := unmark_of_stores hfront hchain
      obtain rfl := hreleases hunmark
      rcases hchain.head with ⟨-, next, hissues, hrest⟩ | ⟨result, next, hdone, -⟩
      · rcases issues_storeCells hissues with ⟨rfl, -, rfl⟩ | ⟨i, others, -, haccess, -⟩
        · exact ⟨q.unmark, writing, r,
            { h with
              sound := h.sound.unmark hw
              memory := by rw [← h.memory]; rfl
              not_marking := fun _ hmarking => by cases hmarking
              writer := hrest
              increments := by rw [h.increments, hw]; rfl }⟩
        · cases haccess
      · cases rest <;> cases hdone

/-! ### Accesses of the reader that take effect -/

/-- Before an attempt the first pending access is the load that opens it. -/
theorem chain_attempting {results : List (Bool × α)} {call last left index : Nat} {given : α}
    {access : Access ι V} {rest : List (Nat × Access ι V)} {final : Program ι V (Bool × α)}
    (h : Chain (ReadRestart buffer results) call
      ((Phase.attempting left).code layout orders blank given) ((index, access) :: rest)
      last final) :
    ∃ value, access = .loadSequence orders.before value ∧
      Chain (ReadRestart buffer results) call
        (if value &&& 1 = 0 then
          loadCells layout orders value (attempts layout orders blank given left)
            layout.order blank
        else attempts layout orders blank given left) rest last final := by
  rcases h.head with ⟨-, next, hissues, hrest⟩ | ⟨result, next, hdone, -⟩
  · obtain ⟨fewer, value, hleft, rfl, rfl⟩ := issues_attempts hissues
    obtain rfl := Nat.succ.inj hleft
    exact ⟨value, rfl, hrest⟩
  · cases hdone

/-- After a call has returned, what is pending belongs to the next one. -/
theorem chain_returned (himplements : Implements layout orders blank retries buffer)
    {results : List (Bool × α)} {call last index : Nat} {result : Bool × α}
    {access : Access ι V} {rest : List (Nat × Access ι V)} {final : Program ι V (Bool × α)}
    (h : Chain (ReadRestart buffer results) call (.done result) ((index, access) :: rest)
      last final) :
    results[call]? = some result ∧ ∃ given,
      Chain (ReadRestart buffer results) (call + 1)
        ((Phase.attempting retries).code layout orders blank given) ((index, access) :: rest)
        last final := by
  rcases h.head with ⟨-, next, hissues, -⟩ | ⟨_, next, hdone, ⟨hresult, given, rfl⟩, hrest⟩
  · cases hissues
  · obtain rfl := Program.done.inj hdone
    rw [himplements.read given] at hrest
    exact ⟨hresult, given, hrest⟩

/-- The reader's next call begins when its first access takes effect. -/
theorem reopen (himplements : Implements layout orders blank retries buffer)
    (h : Tracks layout orders blank buffer first s q writing reading r) {index : Nat}
    {access : Access ι V} {rest : List (Nat × Access ι V)}
    (hpending : s.reader.pending = (index, access) :: rest) {ok : Bool} {out : α}
    (hphase : r.phase = .returned ok out) :
    ∃ given, Tracks layout orders blank buffer first s (q.read retries () given) writing
      (reading + 1) ⟨q.completed, given, q.isIdle, .attempting retries⟩ := by
  have hchain := h.reader
  rw [hpending, hphase] at hchain
  obtain ⟨hresult, given, hrest⟩ := chain_returned himplements hchain
  rw [← hpending] at hrest
  refine ⟨given,
    { h with
      sound := h.sound.read retries () given
      current := rfl
      reader := hrest
      attempt := by rw [h.attempt, Reading.attempt, hphase]; rfl
      earlier := ?_ }⟩
  intro call hcall out' hout'
  rcases Nat.lt_succ_iff_lt_or_eq.mp hcall with hlt | rfl
  · exact h.earlier call hlt out' hout'
  · rw [hresult] at hout'
    obtain ⟨rfl, rfl⟩ := Prod.mk.inj (Option.some.inj hout')
    have hcoherent := h.sound.readings () r h.current
    obtain ⟨n, -, -, hn⟩ := hcoherent.of_returned_true (by rw [Reading.result, hphase])
    exact h.history out (List.mem_of_getElem? hn)

/-- The reader moves on within its call. -/
theorem advance (h : Tracks layout orders blank buffer first s q writing reading r)
    {phase : Phase ι V α} (hsound : Sound layout (q.advance () r phase))
    {pending : List (Nat × Access ι V)} {attempt : Option Nat}
    (hreader : Chain (ReadRestart buffer s.reader.results) reading
      (phase.code layout orders blank r.given) pending s.reader.results.length s.reader.program)
    (hattempt : attempt =
      ({ r with phase := phase } : Reading ι V α).attempt.map (2 * ·)) :
    Tracks layout orders blank buffer first
      { s with reader := { s.reader with pending := pending }, attempt := attempt }
      (q.advance () r phase) writing reading { r with phase := phase } :=
  { h with
    sound := hsound
    current := rfl
    reader := hreader
    attempt := hattempt }

theorem readerLoad (himplements : Implements layout orders blank retries buffer)
    (h : Tracks layout orders blank buffer first s q writing reading r) {index : Nat}
    {cell : ι} {order : MemoryOrder} {front back : List (Nat × Access ι V)}
    (hpending : s.reader.pending =
      front ++ (index, .load cell order (s.memory.cells cell)) :: back)
    (hfront : ∀ entry ∈ front, entry.2.isLoad = true ∧ entry.2.variable_ ≠ some cell) :
    ∃ q' r', Tracks layout orders blank buffer first
      { s with reader := { s.reader with pending := front ++ back } } q' writing reading r' := by
  have hloads : ∀ entry ∈ front,
      entry.2.isLoadSequence = false ∧ entry.2.variable_ ≠ some cell := by
    intro entry hentry
    obtain ⟨hload, hne⟩ := hfront entry hentry
    refine ⟨?_, hne⟩
    cases haccess : entry.2 <;> simp_all [Access.isLoad, Access.isLoadSequence]
  -- whatever is pending first loads the sequence, unless an attempt is in progress
  have hfirst : ∀ {rest : List (Nat × Access ι V)} {index : Nat} {value : BitVec 64},
      s.reader.pending ≠ (index, .loadSequence orders.before value) :: rest := by
    intro rest index value hfirst
    rw [hpending] at hfirst
    cases front with
    | nil => simp at hfirst
    | cons entry front =>
        obtain ⟨rfl, -⟩ := List.cons.inj hfirst
        simpa [Access.isLoad] using (hfront _ List.mem_cons_self).1
  obtain ⟨entry, rest, hcons⟩ : ∃ entry rest, s.reader.pending = entry :: rest := by
    rw [hpending]
    cases front <;> exact ⟨_, _, rfl⟩
  have hchain := h.reader
  cases hphase : r.phase with
  | attempting left =>
      rw [hphase, hcons] at hchain
      obtain ⟨value, haccess, -⟩ := chain_attempting hchain
      exact absurd (by rw [hcons, ← haccess]) hfirst
  | returned ok out =>
      rw [hphase, hcons] at hchain
      obtain ⟨-, given, hnext⟩ := chain_returned himplements hchain
      obtain ⟨value, haccess, -⟩ := chain_attempting hnext
      exact absurd (by rw [hcons, ← haccess]) hfirst
  | loading left before base rest got =>
      rw [hphase, hpending] at hchain
      obtain ⟨-, hrest⟩ := load_of_loads hloads hchain
      have hsound := h.sound.load h.current hphase cell
      rw [h.memory] at hsound
      refine ⟨_, _, h.advance hsound hrest ?_⟩
      rw [h.attempt, Reading.attempt, hphase]
      rfl

/-- A load of the sequence before an attempt opens it, or finds the writer busy. -/
theorem openAttempt (h : Tracks layout orders blank buffer first s q writing reading r)
    {index left : Nat} {order : MemoryOrder} {back : List (Nat × Access ι V)}
    (hpending : s.reader.pending = (index, .loadSequence order s.memory.sequence) :: back)
    (hphase : r.phase = .attempting left) :
    ∃ q' r', Tracks layout orders blank buffer first
      { s with
        reader := { s.reader with pending := back }
        attempt := s.attemptAfter (.loadSequence order s.memory.sequence) }
      q' writing reading r' := by
  have hchain := h.reader
  rw [hpending, hphase] at hchain
  obtain ⟨value, haccess, hrest⟩ := chain_attempting hchain
  obtain ⟨-, rfl⟩ := Access.loadSequence.inj haccess
  have hnone : s.attempt = none := by rw [h.attempt, Reading.attempt, hphase]; rfl
  have hmemory := h.memory
  by_cases hparity : s.memory.sequence &&& 1 = 0
  · have heven : q.memory.sequence &&& 1 = 0 := by rw [hmemory]; exact hparity
    have hsound := h.sound.attempt h.current left blank heven
    rw [hmemory] at hsound
    rw [if_pos hparity] at hrest
    refine ⟨_, _, h.advance hsound hrest ?_⟩
    have hmarked := h.sound.even_iff.mp heven
    simp only [Reordered.attemptAfter, hnone, if_pos hparity, Reading.attempt, Option.map_some,
      h.increments, hmarked, Nat.add_zero]
  · have hodd : q.memory.sequence &&& 1 ≠ 0 := by rw [hmemory]; exact hparity
    rw [if_neg hparity, ← Phase.code_retry] at hrest
    refine ⟨_, _, h.advance (h.sound.busy h.current left hodd) hrest ?_⟩
    rw [Reading.attempt_retry]
    simp only [Reordered.attemptAfter, hnone, if_neg hparity, Option.map_none]

/-- A load of the sequence within an attempt closes it. -/
theorem closeAttempt (h : Tracks layout orders blank buffer first s q writing reading r)
    (hwrap : s.NoWrap) {index left base : Nat} {before : BitVec 64} {rest : List ι}
    {got : ι → V} {order : MemoryOrder} {back : List (Nat × Access ι V)}
    (hpending : s.reader.pending = (index, .loadSequence order s.memory.sequence) :: back)
    (hphase : r.phase = .loading left before base rest got) :
    ∃ q' r', Tracks layout orders blank buffer first
      { s with
        reader := { s.reader with pending := back }
        attempt := s.attemptAfter (.loadSequence order s.memory.sequence) }
      q' writing reading r' := by
  have hchain := h.reader
  rw [hpending, hphase] at hchain
  have hsome : s.attempt = some (2 * base) := by rw [h.attempt, Reading.attempt, hphase]; rfl
  have hmemory := h.memory
  rcases hchain.head with ⟨-, next, hissues, hrest⟩ | ⟨result, next, hdone, -⟩
  · rcases issues_loadCells hissues with
      ⟨rfl, value, haccess, rfl⟩ | ⟨i, others, x, -, haccess, -⟩
    · obtain ⟨-, rfl⟩ := Access.loadSequence.inj haccess
      by_cases hequal : before = s.memory.sequence
      · have hsound := h.sound.accept (h.unambiguous hwrap) h.current hphase
          (hequal.trans (congrArg Memory.sequence hmemory.symm))
        rw [if_pos hequal] at hrest
        refine ⟨_, _, h.advance hsound hrest ?_⟩
        simp only [Reordered.attemptAfter, hsome, Reading.attempt, Option.map_none]
      · have hdiffer : before ≠ q.memory.sequence := by rw [hmemory]; exact hequal
        rw [if_neg hequal, ← Phase.code_retry] at hrest
        refine ⟨_, _, h.advance (h.sound.reject h.current hphase hdiffer) hrest ?_⟩
        rw [Reading.attempt_retry]
        simp only [Reordered.attemptAfter, hsome, Option.map_none]
    · cases haccess
  · cases rest <;> cases hdone

theorem readerSequence (himplements : Implements layout orders blank retries buffer)
    (h : Tracks layout orders blank buffer first s q writing reading r) (hwrap : s.NoWrap)
    {index : Nat} {order : MemoryOrder} {back : List (Nat × Access ι V)}
    (hpending : s.reader.pending = (index, .loadSequence order s.memory.sequence) :: back) :
    ∃ q' reading' r', Tracks layout orders blank buffer first
      { s with
        reader := { s.reader with pending := back }
        attempt := s.attemptAfter (.loadSequence order s.memory.sequence) }
      q' writing reading' r' := by
  cases hphase : r.phase with
  | attempting left =>
      obtain ⟨q', r', h'⟩ := h.openAttempt hpending hphase
      exact ⟨q', reading, r', h'⟩
  | loading left before base rest got =>
      obtain ⟨q', r', h'⟩ := h.closeAttempt hwrap hpending hphase
      exact ⟨q', reading, r', h'⟩
  | returned ok out =>
      obtain ⟨given, hnext⟩ := h.reopen himplements hpending hphase
      obtain ⟨q', r', h'⟩ := hnext.openAttempt hpending rfl
      exact ⟨q', reading + 1, r', h'⟩

/-! ### Steps and runs -/

/-- Every orderly step keeps the invariant. -/
theorem step (himplements : Implements layout orders blank retries buffer)
    (hunmark : orders.unmark.releases = true) (hbefore : orders.before.acquires = true)
    (hafter : orders.after.acquires = true)
    (h : Tracks layout orders blank buffer first s q writing reading r) (hwrap : s.NoWrap)
    {event : ReorderedEvent ι V α} {s' : Reordered ι V α}
    (hstep : Reordered.Step buffer s event s') (horderly : event.Orderly) :
    Tracked layout orders blank buffer first s' := by
  cases hstep with
  | publish value hidle => exact ⟨q, writing, reading, r, h.publish value hidle⟩
  | read given hdone => exact ⟨q, writing, reading, r, h.read given hdone⟩
  | issueWriter hissues => exact ⟨q, writing, reading, r, h.issueWriter hissues⟩
  | issueReader hissues => exact ⟨q, writing, reading, r, h.issueReader hissues⟩
  | @writerEffect call access front back memory hpending hovertakes hperforms =>
      have hshape := writer_pending himplements h.writer rfl (call, access)
        (by rw [hpending]; simp)
      cases hperforms with
      | loadSequence => simp [Access.isFetchAdd, Access.isStore] at hshape
      | load => simp [Access.isFetchAdd, Access.isStore] at hshape
      | fetchAdd =>
          have hfront : ∀ entry ∈ front, entry.2.isFetchAdd = false := by
            intro entry hentry
            have hne := (hovertakes entry hentry).1
            cases haccess : entry.2 <;> simp_all [Access.variable_, Access.isFetchAdd]
          have hreleases : ∀ {order : MemoryOrder}, (∀ entry ∈ front,
              (Access.fetchAdd order : Access ι V).MayOvertake entry.2) →
              order.releases = true → front = [] := by
            intro order hmay hrel
            refine List.eq_nil_iff_forall_not_mem.mpr fun entry hentry => ?_
            have hnot := (hmay entry hentry).2.1
            rw [Access.releases, hrel] at hnot
            cases hnot
          obtain ⟨q', writing', r', h'⟩ :=
            h.writerFetchAdd himplements hunmark hpending hfront (hreleases hovertakes)
          exact ⟨q', writing', reading, r', h'⟩
      | store =>
          obtain ⟨q', h'⟩ := h.writerStore himplements hpending fun entry hentry =>
            ⟨horderly rfl entry hentry, fun he => (hovertakes entry hentry).1 he.symm⟩
          exact ⟨q', writing, reading, r, h'⟩
  | @readerEffect call access front back memory hpending hovertakes hperforms =>
      have hshapes := reader_pending himplements hbefore hafter h.reader rfl
      have hshape := hshapes (call, access) (by rw [hpending]; simp)
      cases hperforms with
      | fetchAdd => simp [Access.isLoad, Access.isLoadSequence] at hshape
      | store => simp [Access.isLoad, Access.isLoadSequence] at hshape
      | load =>
          have hfront : ∀ entry ∈ front, entry.2.isLoad = true := by
            intro entry hentry
            rcases hshapes entry (by rw [hpending]; simp [hentry]) with hload | ⟨-, hacquires⟩
            · exact hload
            · rw [(hovertakes entry hentry).2.2] at hacquires
              cases hacquires
          obtain ⟨q', r', h'⟩ := h.readerLoad himplements hpending fun entry hentry =>
            ⟨hfront entry hentry, fun he => (hovertakes entry hentry).1 he.symm⟩
          exact ⟨q', writing, reading, r', h'⟩
      | loadSequence =>
          obtain rfl : front = [] := by
            refine List.eq_nil_iff_forall_not_mem.mpr fun entry hentry => ?_
            have hne := (hovertakes entry hentry).1
            have hload := horderly rfl entry hentry
            rcases hshapes entry (by rw [hpending]; simp [hentry]) with h₁ | ⟨h₁, -⟩
            · rw [hload] at h₁
              cases h₁
            · cases haccess : entry.2 <;>
                simp_all [Access.variable_, Access.isLoadSequence]
          obtain ⟨q', reading', r', h'⟩ := h.readerSequence himplements hwrap hpending
          exact ⟨q', writing, reading', r', h'⟩

/-- A call that has returned, and none of whose accesses is pending, is one whose
accesses have all taken effect. -/
theorem returned_of_settled (himplements : Implements layout orders blank retries buffer)
    {results : List (Bool × α)} {call last settled : Nat} {program final : Program ι V (Bool × α)}
    {pending : List (Nat × Access ι V)} {result : Bool × α}
    (h : Chain (ReadRestart buffer results) call program pending last final)
    (hlength : last = results.length)
    (hresult : (results ++ final.returned.toList)[settled]? = some result)
    (hsettled : ∀ entry ∈ pending, entry.1 ≠ settled) (hle : call ≤ settled) :
    call = settled ∧ program = .done result := by
  induction h with
  | nil call program =>
      have hlt := (List.getElem?_eq_some_iff.mp hresult).1
      cases program with
      | done value =>
          simp only [Program.returned, Option.toList_some, List.length_append,
            List.length_singleton] at hlt
          obtain rfl : settled = results.length := by omega
          refine ⟨hlength, ?_⟩
          rw [List.getElem?_append_right (le_refl _), Nat.sub_self] at hresult
          exact congrArg Program.done (Option.some.inj hresult)
      | fetchAdd _ _ => simp [Program.returned] at hlt; omega
      | loadSequence _ _ => simp [Program.returned] at hlt; omega
      | store _ _ _ _ => simp [Program.returned] at hlt; omega
      | load _ _ _ => simp [Program.returned] at hlt; omega
  | @issue call last program next final access rest hissues hrest ih =>
      have hne : call ≠ settled := hsettled _ List.mem_cons_self
      obtain ⟨rfl, -⟩ := ih hlength hresult
        (fun entry hentry => hsettled entry (List.mem_cons_of_mem _ hentry)) hle
      exact absurd rfl hne
  | @restart call last value next final rest hrestart hrest ih =>
      obtain ⟨hvalue, given, rfl⟩ := hrestart
      rcases Nat.lt_or_eq_of_le hle with hlt | rfl
      · obtain ⟨-, hdone⟩ := ih hlength hresult hsettled hlt
        rw [himplements.read given] at hdone
        cases hdone
      · obtain ⟨hlt, -⟩ := List.getElem?_eq_some_iff.mp hvalue
        rw [List.getElem?_append_left hlt, hvalue] at hresult
        exact ⟨rfl, congrArg Program.done (Option.some.inj hresult)⟩

theorem untorn (himplements : Implements layout orders blank retries buffer)
    (h : Tracks layout orders blank buffer first s q writing reading r) : s.Untorn first := by
  intro call out hreturned hsettled
  rcases Nat.lt_or_ge call reading with hlt | hge
  · refine h.earlier call hlt out ?_
    rwa [Thread.returned, List.getElem?_append_left (Nat.lt_of_lt_of_le hlt h.reader.le)]
      at hreturned
  · obtain ⟨-, hdone⟩ :=
      returned_of_settled himplements h.reader rfl hreturned hsettled hge
    cases hphase : r.phase with
    | attempting left => rw [hphase] at hdone; cases hdone
    | loading left before base rest got => rw [hphase] at hdone; cases rest <;> cases hdone
    | returned ok value =>
        rw [hphase] at hdone
        obtain ⟨rfl, rfl⟩ := Prod.mk.inj (Program.done.inj hdone)
        have hcoherent := h.sound.readings () r h.current
        obtain ⟨n, -, -, hn⟩ := hcoherent.of_returned_true (by rw [Reading.result, hphase])
        exact h.history value (List.mem_of_getElem? hn)

end Tracks

end Steps

/-- Orderly runs are untorn: in every state that a run of orderly steps reaches,
what the reads have returned was published. -/
theorem untorn_of_orderly (himplements : Implements layout orders blank retries buffer)
    (hunmark : orders.unmark.releases = true) (hbefore : orders.before.acquires = true)
    (hafter : orders.after.acquires = true) {first given : α} {s : Reordered ι V α}
    (h : Reachable
      (fun start => start = Reordered.initial buffer ⟨0, layout.cells first⟩ given)
      (Reordered.OrderlyStep buffer) s) : s.Untorn first := by
  have hboth := h.invariant
    (fun s => Tracked layout orders blank buffer first s ∧ s.NoWrap) ?_ ?_
  · obtain ⟨⟨q, writing, reading, r, htracks⟩, -⟩ := hboth
    exact htracks.untorn himplements
  · rintro s rfl
    exact ⟨⟨_, _, _, _, Tracks.initial himplements given⟩, fun _ hnone => by cases hnone⟩
  · rintro s event s' ⟨⟨q, writing, reading, r, htracks⟩, hwrap⟩ ⟨hstep, horderly, hwrap'⟩
    exact ⟨htracks.step himplements hunmark hbefore hafter hwrap hstep horderly, hwrap'⟩

end Seqlock

end RobotController.Foundation
