import WireQueue.Proofs.Invariant

/-! # No unit is cut

Numbers, headers and elements reach the wire in one piece: no chunk border falls inside a unit, and
no commit mark does. `Chain.Stows` says so of a chain, chunk by chunk, and names the units it holds
in order. `UnitStreams` keeps the books of a run in units: those that have left, those that are
committed and wait, and those of the open message.

* `Chain.Laid.stows`, `Chain.Stows.rollback`, `Chain.Stows.commit` — what is done to a chain cuts
  none of its units.
* `Queue.WellFormed.step_units` — one operation moves whole units.
* `Queue.WellFormed.keepsUnits` — so does every run, whatever is done to supplier and sink. -/

namespace WireQueue

/-! ### Chunks of whole units -/

/-- The chunk holds the `kept` units up to its commit mark and the `opened` ones behind it, all of
them whole. -/
structure Chunk.Holds (chunk : Chunk) (kept opened : List WireUnit) : Prop where
  committed : chunk.committed = unitBytes kept
  uncommitted : chunk.uncommitted = unitBytes opened
  sized : ∀ unit ∈ kept ++ opened, unit.Sized

namespace Chunk.Holds

variable {chunk : Chunk} {kept opened : List WireUnit}

theorem append (h : chunk.Holds kept opened) {unit : WireUnit} (hsized : unit.Sized) :
    (chunk.append unit.bytes).Holds kept (opened ++ [unit]) where
  committed := h.committed
  uncommitted := by simp [h.uncommitted]
  sized := by
    rw [← List.append_assoc]
    exact List.forall_mem_append.mpr ⟨h.sized, List.forall_mem_singleton.mpr hsized⟩

theorem commit (h : chunk.Holds kept opened) : chunk.commit.Holds (kept ++ opened) [] where
  committed := by
    rw [unitBytes_append, ← h.committed, ← h.uncommitted]
    rfl
  uncommitted := rfl
  sized := by simpa using h.sized

theorem rollback (h : chunk.Holds kept opened) : chunk.rollback.Holds kept [] where
  committed := h.committed
  uncommitted := rfl
  sized := by
    rw [List.append_nil]
    exact (List.forall_mem_append.mp h.sized).1

theorem kept_eq_nil (h : chunk.Holds kept opened) (hnil : chunk.committed = []) : kept = [] := by
  apply eq_nil_of_unitBytes_eq_nil (List.forall_mem_append.mp h.sized).1
  rw [← h.committed, hnil]

theorem opened_eq_nil (h : chunk.Holds kept opened) (hnil : chunk.uncommitted = []) :
    opened = [] := by
  apply eq_nil_of_unitBytes_eq_nil (List.forall_mem_append.mp h.sized).2
  rw [← h.uncommitted, hnil]

end Chunk.Holds

/-! ### Chains of whole units -/

namespace Chain

/-- Each chunk of the chain holds whole units. Together these are the `kept` units, which are
committed, and the `opened` ones, which are not, both in order. -/
inductive Stows : Chain → List WireUnit → List WireUnit → Prop where
  | nil : Stows [] [] []
  | cons {chunk : Chunk} {chain : Chain} {kept opened kept' opened' : List WireUnit}
      (hchunk : chunk.Holds kept opened) (hchain : Stows chain kept' opened') :
      Stows (chunk :: chain) (kept ++ kept') (opened ++ opened')

variable {chain front back : Chain} {kept opened kept' opened' : List WireUnit}

theorem stows_singleton {chunk : Chunk} (h : chunk.Holds kept opened) :
    Stows [chunk] kept opened := by
  simpa using Stows.cons h .nil

theorem Stows.append (h : Stows front kept opened) (h' : Stows back kept' opened') :
    Stows (front ++ back) (kept ++ kept') (opened ++ opened') := by
  induction h with
  | nil => exact h'
  | cons hchunk _ ih =>
    rw [List.append_assoc, List.append_assoc]
    exact .cons hchunk ih

/-- A part of the chain holds a part of the units. -/
theorem Stows.of_append (h : Stows (front ++ back) kept opened) :
    ∃ kept₁ kept₂ opened₁ opened₂, kept = kept₁ ++ kept₂ ∧ opened = opened₁ ++ opened₂ ∧
      Stows front kept₁ opened₁ ∧ Stows back kept₂ opened₂ := by
  induction front generalizing kept opened with
  | nil => exact ⟨[], kept, [], opened, rfl, rfl, .nil, h⟩
  | cons chunk front ih =>
    cases h with
    | @cons _ _ kept₁ opened₁ _ _ hchunk hrest =>
      obtain ⟨kept₂, kept₃, opened₂, opened₃, rfl, rfl, hfront, hback⟩ := ih hrest
      exact ⟨kept₁ ++ kept₂, kept₃, opened₁ ++ opened₂, opened₃, (List.append_assoc _ _ _).symm,
        (List.append_assoc _ _ _).symm, .cons hchunk hfront, hback⟩

theorem Stows.committed_eq (h : Stows chain kept opened) : chain.committed = unitBytes kept := by
  induction h with
  | nil => rfl
  | cons hchunk _ ih => rw [committed_cons, unitBytes_append, hchunk.committed, ih]

theorem Stows.uncommitted_eq (h : Stows chain kept opened) :
    chain.uncommitted = unitBytes opened := by
  induction h with
  | nil => rfl
  | cons hchunk _ ih => rw [uncommitted_cons, unitBytes_append, hchunk.uncommitted, ih]

/-- A settled chain holds no unit of an open message. -/
theorem Stows.opened_eq_nil (h : Stows chain kept opened) (hsettled : Settled chain) :
    opened = [] := by
  induction h with
  | nil => rfl
  | cons hchunk _ ih =>
    obtain ⟨hfirst, hrest⟩ := List.forall_mem_cons.mp hsettled
    rw [hchunk.opened_eq_nil hfirst, ih hrest, List.append_nil]

/-- A fresh chain holds no committed unit. -/
theorem Stows.kept_eq_nil (h : Stows chain kept opened) (hfresh : Fresh chain) : kept = [] := by
  induction h with
  | nil => rfl
  | cons hchunk _ ih =>
    obtain ⟨hfirst, hrest⟩ := List.forall_mem_cons.mp hfresh
    rw [hchunk.kept_eq_nil hfirst, ih hrest, List.append_nil]

/-! ### What is done to a chain -/

/-- A unit that is laid down is laid down whole. -/
theorem Laid.stows {chain' : Chain} {units : List WireUnit} {fresh : Nat}
    (hlaid : chain.Laid units fresh chain') (hsized : ∀ unit ∈ units, unit.Sized)
    (h : Stows chain kept opened) : Stows chain' kept (opened ++ units) := by
  induction hlaid with
  | refl => simpa using h
  | @inTail units unit _ front last _ _ ih =>
    obtain ⟨hunits, hunit⟩ := List.forall_mem_append.mp hsized
    obtain ⟨kept₁, _, opened₁, _, rfl, hopened, hfront, hlast⟩ := (ih hunits).of_append
    cases hlast with
    | @cons _ _ kept₂ opened₂ _ _ hchunk hnil =>
      cases hnil
      have hgrown := hchunk.append (List.forall_mem_singleton.mp hunit)
      have hall : opened ++ (units ++ [unit]) = opened₁ ++ (opened₂ ++ [unit]) := by
        rw [← List.append_assoc, hopened, List.append_nil, List.append_assoc]
      rw [hall, List.append_nil]
      exact hfront.append (stows_singleton hgrown)
  | @inNewChunk units unit _ _ _ _ ih =>
    obtain ⟨hunits, hunit⟩ := List.forall_mem_append.mp hsized
    have hempty : Chunk.empty.Holds [] [] := ⟨rfl, rfl, List.forall_mem_nil _⟩
    have hnew := hempty.append (List.forall_mem_singleton.mp hunit)
    rw [← List.append_assoc, ← List.append_nil kept]
    exact (ih hunits).append (stows_singleton hnew)

/-- A rollback takes the units of the open message away. A chunk that is left empty held no others.
-/
theorem Stows.rollback (h : Stows chain kept opened) : Stows chain.rollback kept [] := by
  induction h with
  | nil => exact .nil
  | @cons chunk chain kept _ _ _ hchunk _ ih =>
    by_cases hempty : chunk.rollback.isEmpty
    · have hnil : chunk.committed = [] := by
        simpa [Chunk.isEmpty] using hempty
      have hdropped : Chain.rollback (chunk :: chain) = chain.rollback := by
        simp [Chain.rollback, hempty]
      rw [hdropped, hchunk.kept_eq_nil hnil]
      exact ih
    · have hstays : Chain.rollback (chunk :: chain) = chunk.rollback :: chain.rollback := by
        simp [Chain.rollback, hempty]
      rw [hstays]
      exact .cons hchunk.rollback ih

/-- In a fresh chain, a commit makes the units of the open message the committed ones. -/
theorem Stows.commit_of_fresh (h : Stows chain kept opened) (hfresh : Fresh chain) :
    Stows chain.commit opened [] := by
  induction h with
  | nil => exact .nil
  | cons hchunk _ ih =>
    obtain ⟨hfirst, hrest⟩ := List.forall_mem_cons.mp hfresh
    obtain rfl := hchunk.kept_eq_nil hfirst
    exact .cons hchunk.commit (ih hrest)

/-- A commit adds the units of the open message to the committed ones. Before the cursor no unit is
open, and behind it none is committed. -/
theorem Stows.commit {cursor : Option Nat} (h : Stows chain kept opened)
    (hmarked : Marked chain cursor) : Stows chain.commit (kept ++ opened) [] := by
  cases hmarked with
  | closed hsettled =>
    obtain rfl := h.opened_eq_nil hsettled
    rw [hsettled.commit_eq, List.append_nil]
    exact h
  | @opened front back chunk hfront hback =>
    obtain ⟨kept₁, _, opened₁, _, rfl, rfl, hleft, hright⟩ := h.of_append
    cases hright with
    | @cons _ _ kept₂ opened₂ kept₃ opened₃ hchunk hrest =>
      obtain rfl := hleft.opened_eq_nil hfront
      obtain rfl := hrest.kept_eq_nil hback
      have hall : kept₁ ++ (kept₂ ++ []) ++ ([] ++ (opened₂ ++ opened₃)) =
          kept₁ ++ ((kept₂ ++ opened₂) ++ opened₃) := by
        simp
      rw [hall, commit_append, hfront.commit_eq]
      exact hleft.append (.cons hchunk.commit (hrest.commit_of_fresh hback))

end Chain

/-! ### The books in units -/

/-- What is stored of a write, by its outcome, with a supplier of type `M`. -/
inductive Write.Stores (M : Type) [Supplier M] (write : Write) :
    Except Fault Unit → List WireUnit → Prop where
  | whole {units : List WireUnit} (h : write.units = .ok units) : Stores M write (.ok ()) units
  /-- The supplier refuses a chunk for `next`, and its fault is that of the write. -/
  | cut {stored rest : List WireUnit} {next : WireUnit} {fault : Fault}
      (h : write.units = .ok (stored ++ next :: rest)) (hsupplier : Supplier.Refuses M fault) :
      Stores M write (.error fault) stored
  | refused {fault : Fault} (h : write.units = .error fault) : Stores M write (.error fault) []

structure UnitStreams where
  /-- The units that have left, to the caller or to the sink. -/
  drained : List WireUnit := []
  /-- The units that are committed and have not left. -/
  committed : List WireUnit := []
  /-- The units of the open message. -/
  opened : List WireUnit := []

/-- `Step M operation answer left s s'`: over a supplier of type `M`, with this answer and with the
units `left` leaving, the operation takes the books from `s` to `s'`. -/
inductive UnitStreams.Step (M : Type) [Supplier M] :
    Operation → Answer → List WireUnit → UnitStreams → UnitStreams → Prop where
  | startMessage {s : UnitStreams} : Step M .startMessage .done [] s { s with opened := [] }
  | commit {s : UnitStreams} :
      Step M .commit .done [] s { s with committed := s.committed ++ s.opened, opened := [] }
  | clear {s : UnitStreams} : Step M .clear .done [] s { s with committed := [], opened := [] }
  | write {s : UnitStreams} {write : Write} {outcome : Except Fault Unit} {stored : List WireUnit}
      (h : write.Stores M outcome stored) :
      Step M (.write write) (.written outcome) [] s { s with opened := s.opened ++ stored }
  | popNothing {s : UnitStreams} (h : s.committed = []) :
      Step M .pop (.popped none) [] s { s with opened := [] }
  /-- The chunk holds the first of the committed units. -/
  | pop {s : UnitStreams} {chunk : Chunk} {left rest : List WireUnit}
      (h : s.committed = left ++ rest) (hchunk : chunk.bytes = unitBytes left) :
      Step M .pop (.popped (some chunk)) left s
        { drained := s.drained ++ left, committed := rest, opened := [] }
  | flush {s : UnitStreams} :
      Step M .flush (.flushed (unitBytes s.committed).length) s.committed s
        { drained := s.drained ++ s.committed, committed := [], opened := [] }
  | recycle {s : UnitStreams} {chunk : Chunk} : Step M (.recycle chunk) .done [] s s

namespace Queue

variable {M S : Type}

/-- The queue holds the units that the books say. Each chunk holds some of them, whole, up to its
commit mark and some behind it; all in all they come in the order of the books. -/
structure Packs (q : Queue M S) (s : UnitStreams) : Prop where
  chunks : q.chain.Stows s.committed s.opened
  bytes : q.bytes = unitBytes (s.committed ++ s.opened)

theorem WellFormed.packs {q : Queue M S} {s : UnitStreams} (h : q.WellFormed)
    (hstows : q.chain.Stows s.committed s.opened) : q.Packs s where
  chunks := hstows
  bytes := by
    rw [unitBytes_append, ← hstows.committed_eq, ← hstows.uncommitted_eq]
    exact h.marked.bytes_eq

variable [Supplier M] [Sink S]

/-- Queue and books keep step along a run, whatever is done to supplier and sink in between. Chunks
of whole units are in the queue in every state, and chunks of whole units leave it in every
operation. -/
inductive KeepsUnits : Queue M S → UnitStreams → List Operation → Prop where
  | nil {q : Queue M S} {s : UnitStreams} (h : q.Packs s) : KeepsUnits q s []
  | cons {q : Queue M S} {s s' : UnitStreams} {operation : Operation} {left : List WireUnit}
      {rest : List Operation} (h : q.Packs s)
      (hstep : UnitStreams.Step M operation (q.perform operation).1 left s s')
      (hleft : Chain.Stows (q.leaving operation) left [])
      (hsink : (q.perform operation).2.sink = Sink.deliverAll q.sink (q.delivered operation))
      (hrest : ∀ supply sink,
        KeepsUnits { (q.perform operation).2 with supply, sink } s' rest) :
      KeepsUnits q s (operation :: rest)

/-! ### One operation -/

omit [Sink S] in
/-- A write stores whole units. -/
theorem stows_write {q : Queue M S} {kept opened : List WireUnit} (h : q.chain.Stows kept opened)
    (write : Write) : ∃ stored, write.Stores M (write.attempt q).1 stored ∧
      (write.attempt q).2.chain.Stows kept (opened ++ stored) := by
  rcases write.attempt_grows q with ⟨units, fresh, hunits, hok, hgrows⟩ |
    ⟨stored, next, rest, fresh, fault, hunits, herror, hsupplier, -, hgrows⟩ |
    ⟨fault, hunits, hrefused⟩
  · rw [hok]
    exact ⟨units, .whole hunits, hgrows.laid.stows (Write.sized_units hunits) h⟩
  · rw [herror]
    have hsized := (List.forall_mem_append.mp (Write.sized_units hunits)).1
    exact ⟨stored, .cut hunits hsupplier.refuses, hgrows.laid.stows hsized h⟩
  · rw [hrefused]
    refine ⟨[], .refused hunits, ?_⟩
    rw [List.append_nil]
    exact h

omit [Sink S] in
theorem WellFormed.stows_rollback {q : Queue M S} (hq : q.WellFormed) {kept opened : List WireUnit}
    (h : q.chain.Stows kept opened) : q.rollback.chain.Stows kept [] := by
  rw [hq.chain_rollback]
  exact h.rollback

/-- A chunk is popped with the first of the committed units. -/
theorem WellFormed.stows_pop {q : Queue M S} (hq : q.WellFormed) {s : UnitStreams}
    (h : q.chain.Stows s.committed s.opened) :
    ∃ left s', UnitStreams.Step M .pop (.popped q.pop.1) left s s' ∧
      Chain.Stows (q.leaving .pop) left [] ∧ q.pop.2.chain.Stows s'.committed s'.opened := by
  have hrollback := hq.stows_rollback h
  have hpopped : q.pop.1 = q.rollback.chain.head? := by
    rw [pop_eq]
  rw [leaving_pop, chain_pop, hpopped]
  cases hchain : q.rollback.chain with
  | nil =>
    rw [hchain] at hrollback
    have hcommitted : s.committed = [] := hrollback.kept_eq_nil (List.forall_mem_nil _)
    refine ⟨[], { s with opened := [] }, .popNothing hcommitted, .nil, ?_⟩
    exact hrollback
  | cons chunk rest =>
    rw [hchain] at hrollback
    obtain ⟨left, kept, opened, opened', hcommitted, hopened, hleft, hkept⟩ :=
      (show Chain.Stows ([chunk] ++ rest) s.committed [] from hrollback).of_append
    obtain ⟨rfl, rfl⟩ := List.append_eq_nil_iff.mp hopened.symm
    refine ⟨left, { drained := s.drained ++ left, committed := kept, opened := [] },
      .pop hcommitted ?_, hleft, hkept⟩
    have hbytes := hleft.committed_eq
    have huncommitted := hleft.uncommitted_eq
    rw [Chain.committed_cons, Chain.committed_nil, List.append_nil] at hbytes
    rw [Chain.uncommitted_cons, Chain.uncommitted_nil, List.append_nil] at huncommitted
    rw [Chunk.bytes, hbytes, huncommitted, unitBytes_nil, List.append_nil]

theorem WellFormed.stows_flush {q : Queue M S} (hq : q.WellFormed) {s : UnitStreams}
    (h : q.chain.Stows s.committed s.opened) :
    UnitStreams.Step M .flush (.flushed q.flush.1) s.committed s
        { drained := s.drained ++ s.committed, committed := [], opened := [] } ∧
      Chain.Stows (q.leaving .flush) s.committed [] := by
  have hrollback := hq.stows_rollback h
  have hcount : q.flush.1 = (unitBytes s.committed).length := by
    show q.rollback.chain.size = _
    rw [← hrollback.committed_eq, Chain.size_eq_add, hrollback.uncommitted_eq]
    rfl
  rw [hcount, leaving_flush]
  exact ⟨.flush, hrollback⟩

/-- **The step.** Every operation moves whole units, and what leaves is made of whole units. -/
theorem WellFormed.step_units {q : Queue M S} (hq : q.WellFormed) {s : UnitStreams}
    (h : q.chain.Stows s.committed s.opened) (operation : Operation) :
    ∃ left s', UnitStreams.Step M operation (q.perform operation).1 left s s' ∧
      Chain.Stows (q.leaving operation) left [] ∧
      (q.perform operation).2.chain.Stows s'.committed s'.opened := by
  cases operation with
  | startMessage => exact ⟨[], _, .startMessage, .nil, hq.stows_rollback h⟩
  | commit =>
    refine ⟨[], _, .commit, .nil, ?_⟩
    show q.commit.chain.Stows (s.committed ++ s.opened) []
    rw [hq.chain_commit]
    exact h.commit hq.marked
  | clear => exact ⟨[], _, .clear, .nil, .nil⟩
  | write write =>
    obtain ⟨stored, hstores, hstows⟩ := stows_write h write
    exact ⟨[], _, .write hstores, .nil, hstows⟩
  | pop => exact hq.stows_pop h
  | flush =>
    obtain ⟨hstep, hleft⟩ := hq.stows_flush h
    refine ⟨s.committed, _, hstep, hleft, ?_⟩
    show q.flush.2.chain.Stows [] []
    rw [chain_flush]
    exact .nil
  | recycle chunk => exact ⟨[], s, .recycle, .nil, h⟩

/-! ### A whole run -/

theorem WellFormed.keepsUnits {q : Queue M S} (hq : q.WellFormed) {s : UnitStreams}
    (h : q.chain.Stows s.committed s.opened) (operations : List Operation) :
    q.KeepsUnits s operations := by
  induction operations generalizing q s with
  | nil => exact .nil (hq.packs h)
  | cons operation rest ih =>
    obtain ⟨left, s', hstep, hleft, hstows⟩ := hq.step_units h operation
    refine .cons (hq.packs h) hstep hleft (sink_perform q operation) ?_
    intro supply sink
    have hnext : ({ (q.perform operation).2 with supply, sink } : Queue M S).WellFormed :=
      (hq.perform operation).congr rfl rfl rfl
    exact ih hnext hstows

/-- **No unit is cut.** Along every run of a new queue, over any supplier and any sink, the chunks
in the queue and those that leave it hold whole units, in the order they were written. -/
theorem keepsUnits_new (supply : M) (sink : S) (operations : List Operation) :
    (Queue.new supply sink).KeepsUnits {} operations := by
  have hempty : (new supply sink).chain.Stows ({} : UnitStreams).committed [] := .nil
  exact (wellFormed_new supply sink).keepsUnits hempty operations

end Queue

end WireQueue
