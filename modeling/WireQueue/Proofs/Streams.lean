import WireQueue.Proofs.Invariant

/-! # A queue is three byte strings

Seen from outside, all that matters of a queue are three byte strings: what has left it, what is
committed and waits, and what the open message holds. `Streams.Step` says what each operation does
to them, and to which answer it leads; there are no chunks in it, apart from those that change
hands.

* `Queue.WellFormed.step` — one operation of a queue is one step of its three strings.
* `Queue.WellFormed.keepsStep` — so every run of a queue is a run of its three strings. -/

namespace WireQueue

structure Streams where
  /-- What has left, to the caller or to the sink. -/
  drained : List UInt8 := []
  /-- What is committed and has not left. -/
  committed : List UInt8 := []
  /-- What belongs to the open message. -/
  opened : List UInt8 := []

namespace Streams

/-- `Step M operation answer delivered s s'`: over a supplier of type `M`, with this answer and with
these chunks handed to the sink, the operation takes the strings from `s` to `s'`. -/
inductive Step (M : Type) [Supplier M] :
    Operation → Answer → List Chunk → Streams → Streams → Prop where
  | startMessage {s : Streams} : Step M .startMessage .done [] s { s with opened := [] }
  | commit {s : Streams} :
      Step M .commit .done [] s { s with committed := s.committed ++ s.opened, opened := [] }
  | clear {s : Streams} : Step M .clear .done [] s { s with committed := [], opened := [] }
  | written {s : Streams} {write : Write} {bytes : List UInt8} (h : write.encoding = .ok bytes) :
      Step M (.write write) (.written (.ok ())) [] s { s with opened := s.opened ++ bytes }
  /-- The supplier refuses a chunk while bytes of the write are left over, and its fault is that of
  the write. -/
  | cut {s : Streams} {write : Write} {stored rest : List UInt8} {fault : Fault}
      (h : write.encoding = .ok (stored ++ rest)) (hrest : rest ≠ [])
      (hsupplier : Supplier.Refuses M fault) :
      Step M (.write write) (.written (.error fault)) [] s { s with opened := s.opened ++ stored }
  /-- What cannot be encoded is not written. -/
  | refused {s : Streams} {write : Write} {fault : Fault} (h : write.encoding = .error fault) :
      Step M (.write write) (.written (.error fault)) [] s s
  | popNothing {s : Streams} (h : s.committed = []) :
      Step M .pop (.popped none) [] s { s with opened := [] }
  | pop {s : Streams} {chunk : Chunk} {rest : List UInt8} (h : s.committed = chunk.bytes ++ rest)
      (hchunk : chunk.bytes ≠ []) :
      Step M .pop (.popped (some chunk)) [] s
        { drained := s.drained ++ chunk.bytes, committed := rest, opened := [] }
  | flush {s : Streams} {delivered : List Chunk}
      (h : delivered.flatMap Chunk.bytes = s.committed) :
      Step M .flush (.flushed s.committed.length) delivered s
        { drained := s.drained ++ s.committed, committed := [], opened := [] }
  | recycle {s : Streams} {chunk : Chunk} : Step M (.recycle chunk) .done [] s s

end Streams

namespace Queue

variable {M S : Type}

/-- The strings that a queue stands for, if `drained` has left it. -/
def streams (q : Queue M S) (drained : List UInt8) : Streams where
  drained := drained
  committed := q.chain.committed
  opened := q.chain.uncommitted

/-- How the strings show in the queue: its chunks hold the committed bytes and then those of the
open message, which the commit mark of each chunk keeps apart, and all of them are counted. -/
structure Represents (q : Queue M S) (s : Streams) : Prop where
  bytes : q.bytes = s.committed ++ s.opened
  committed : q.chain.flatMap Chunk.committed = s.committed
  opened : q.chain.flatMap Chunk.uncommitted = s.opened
  occupied : q.occupied = s.committed.length + s.opened.length

theorem WellFormed.represents {q : Queue M S} (h : q.WellFormed) (drained : List UInt8) :
    q.Represents (q.streams drained) where
  bytes := h.marked.bytes_eq
  committed := rfl
  opened := rfl
  occupied := h.occupied.trans (Chain.size_eq_add q.chain)

variable [Supplier M] [Sink S]

/-- Queue and strings keep step along a run: in every state the queue represents the strings, and
every operation is a step of them. -/
inductive KeepsStep : Queue M S → Streams → List Operation → Prop where
  | nil {q : Queue M S} {s : Streams} (h : q.Represents s) : KeepsStep q s []
  | cons {q : Queue M S} {s s' : Streams} {operation : Operation} {delivered : List Chunk}
      {rest : List Operation} (h : q.Represents s)
      (hstep : Streams.Step M operation (q.perform operation).1 delivered s s')
      (hsink : (q.perform operation).2.sink = Sink.deliverAll q.sink delivered)
      (hrest : KeepsStep (q.perform operation).2 s' rest) : KeepsStep q s (operation :: rest)

/-! ### The strings after a rollback or a commit -/

omit [Sink S] in
theorem WellFormed.streams_rollback {q : Queue M S} (h : q.WellFormed) (drained : List UInt8) :
    q.rollback.streams drained = { q.streams drained with opened := [] } := by
  have hsettled := Chain.settled_rollback q.chain
  have hcommitted : q.chain.rollback.committed = q.chain.committed := by
    rw [← hsettled.bytes_eq, Chain.bytes_rollback]
  rw [streams, streams, h.chain_rollback, hcommitted, hsettled.uncommitted_eq_nil]

omit [Supplier M] [Sink S] in
theorem WellFormed.streams_commit {q : Queue M S} (h : q.WellFormed) (drained : List UInt8) :
    q.commit.streams drained =
      { q.streams drained with
        committed := q.chain.committed ++ q.chain.uncommitted
        opened := [] } := by
  have hsettled := Chain.settled_commit q.chain
  have hcommitted : q.chain.commit.committed = q.chain.committed ++ q.chain.uncommitted := by
    rw [← hsettled.bytes_eq, Chain.bytes_commit, h.marked.bytes_eq]
  rw [streams, streams, h.chain_commit, hcommitted, hsettled.uncommitted_eq_nil]

/-! ### One operation, one step -/

omit [Sink S] in
theorem Grows.streams {units : List WireUnit} {fresh : Nat} {q q' : Queue M S}
    (h : Grows units fresh q q') (drained : List UInt8) :
    q'.streams drained =
      { q.streams drained with opened := q.chain.uncommitted ++ unitBytes units } := by
  rw [Queue.streams, Queue.streams, h.laid.committed, h.laid.uncommitted]

omit [Sink S] in
theorem step_write (write : Write) (q : Queue M S) (drained : List UInt8) :
    Streams.Step M (.write write) (.written (write.attempt q).1) [] (q.streams drained)
      ((write.attempt q).2.streams drained) := by
  rcases write.attempt_grows q with ⟨units, fresh, hunits, hok, hgrows⟩ |
    ⟨stored, next, rest, fresh, fault, hunits, herror, hsupplier, -, hgrows⟩ |
    ⟨fault, hunits, hrefused⟩
  · rw [hok, hgrows.streams]
    exact .written (by rw [Write.encoding, hunits]; rfl)
  · rw [herror, hgrows.streams]
    obtain ⟨missing, hne, hencoding⟩ := Write.encoding_of_units hunits
    exact .cut hencoding hne hsupplier.refuses
  · rw [hrefused]
    exact .refused (by rw [Write.encoding, hunits]; rfl)

theorem WellFormed.step_pop {q : Queue M S} (h : q.WellFormed) (drained : List UInt8) :
    Streams.Step M .pop (.popped q.pop.1) [] (q.streams drained)
      (q.pop.2.streams (drained ++ Chain.bytes (q.leaving .pop))) := by
  have hrollback := h.streams_rollback drained
  have hfilled := h.rollback.filled
  have hsettled := h.settled_rollback
  have hcommitted : q.rollback.chain.committed = q.chain.committed :=
    congrArg Streams.committed hrollback
  rw [leaving_pop, pop_eq]
  cases hchain : q.rollback.chain with
  | nil =>
    rw [hchain] at hcommitted
    show Streams.Step M .pop (.popped none) [] _ (q.rollback.streams (drained ++ []))
    rw [List.append_nil, hrollback]
    exact .popNothing hcommitted.symm
  | cons chunk rest =>
    rw [hchain] at hcommitted hfilled hsettled
    have hpos := hfilled.length_pos List.mem_cons_self
    obtain ⟨hchunk, hrest⟩ : chunk.uncommitted = [] ∧ Chain.Settled rest :=
      List.forall_mem_cons.mp hsettled
    have hbytes : chunk.bytes = chunk.committed := by
      rw [Chunk.bytes, hchunk, List.append_nil]
    have hafter : ({ q.rollback with chain := rest }.depart chunk).streams
          (drained ++ Chain.bytes [chunk]) =
        { drained := drained ++ chunk.bytes, committed := Chain.committed rest, opened := [] } := by
      rw [Queue.streams]
      show Streams.mk _ (Chain.committed rest) (Chain.uncommitted rest) = _
      rw [hrest.uncommitted_eq_nil, Chain.bytes_cons, Chain.bytes_nil, List.append_nil]
    refine hafter ▸ Streams.Step.pop ?_ ?_
    · show q.chain.committed = chunk.bytes ++ Chain.committed rest
      rw [← hcommitted, Chain.committed_cons, hbytes]
    · rw [← List.length_pos_iff, Chunk.length_bytes]
      exact hpos

theorem WellFormed.step_flush {q : Queue M S} (h : q.WellFormed) (drained : List UInt8) :
    Streams.Step M .flush (.flushed q.flush.1) q.rollback.chain (q.streams drained)
      (q.flush.2.streams (drained ++ Chain.bytes (q.leaving .flush))) := by
  have hbytes : q.rollback.chain.bytes = q.chain.committed := by
    rw [h.chain_rollback, Chain.bytes_rollback]
  have hcount : q.flush.1 = q.chain.committed.length := by
    show q.rollback.chain.size = _
    rw [← Chain.length_bytes, hbytes]
  rw [leaving_flush, hbytes, hcount, Queue.streams, Queue.streams, chain_flush]
  exact Streams.Step.flush (s := q.streams drained) hbytes

/-- **The step.** Every operation of a well-formed queue is a step of its strings, and what leaves
the queue is what the step adds to the first of them. -/
theorem WellFormed.step {q : Queue M S} (h : q.WellFormed) (operation : Operation)
    (drained : List UInt8) :
    Streams.Step M operation (q.perform operation).1 (q.delivered operation) (q.streams drained)
      ((q.perform operation).2.streams (drained ++ Chain.bytes (q.leaving operation))) := by
  cases operation with
  | pop => exact h.step_pop drained
  | flush => exact h.step_flush drained
  -- Nothing leaves in the other operations.
  | startMessage =>
    show Streams.Step M .startMessage .done [] _ (q.rollback.streams (drained ++ []))
    rw [List.append_nil, h.streams_rollback]
    exact .startMessage
  | commit =>
    show Streams.Step M .commit .done [] _ (q.commit.streams (drained ++ []))
    rw [List.append_nil, h.streams_commit]
    exact .commit
  | clear =>
    show Streams.Step M .clear .done [] _ (q.clear.streams (drained ++ []))
    rw [List.append_nil]
    exact .clear
  | write write =>
    show Streams.Step M (.write write) (.written (write.attempt q).1) [] _
      ((write.attempt q).2.streams (drained ++ []))
    rw [List.append_nil]
    exact step_write write q drained
  | recycle chunk =>
    show Streams.Step M (.recycle chunk) .done [] _ (q.streams (drained ++ []))
    rw [List.append_nil]
    exact .recycle

/-- **The run.** A well-formed queue keeps step with its strings, whatever is done to it. -/
theorem WellFormed.keepsStep {q : Queue M S} (h : q.WellFormed) (drained : List UInt8)
    (operations : List Operation) : q.KeepsStep (q.streams drained) operations := by
  induction operations generalizing q drained with
  | nil => exact .nil (h.represents drained)
  | cons operation rest ih =>
    exact .cons (h.represents drained) (h.step operation drained) (sink_perform q operation)
      (ih (h.perform operation) _)

/-- **Refinement.** Every run of a new queue, over any supplier and any sink, is a run of three byte
strings that start out empty. -/
theorem keepsStep_new (supply : M) (sink : S) (operations : List Operation) :
    (Queue.new supply sink).KeepsStep {} operations :=
  (wellFormed_new supply sink).keepsStep [] operations

end Queue

end WireQueue
