import WireQueue.Proofs.Growth

/-! # What leaves a queue

Chunks leave a queue on two ways: a popped chunk goes to the caller, as the answer, and a flush
hands chunks to the sink. A sink may keep what it is given or give it back, and nothing is known of
its state, so what it was given is said by the calls it saw: `Sink.deliverAll` is the sink after
them. `Queue.leaving` lists the chunks that leave in one operation, and `Queue.outflow` those that
leave in a run.

* `Queue.sink_perform` — only a flush talks to the sink.
* `Queue.drains_perform` and `Queue.drains_run` — the counters of drained chunks and bytes count
  what leaves, to the caller or to the sink. -/

namespace WireQueue

/-- The sink after it was given the chunks, in order. -/
def Sink.deliverAll {S : Type} [Sink S] (sink : S) (chunks : List Chunk) : S :=
  chunks.foldl (fun sink chunk => (Sink.deliver sink chunk).2) sink

/-- The chunk that an answer hands to the caller. -/
def Answer.chunks : Answer → List Chunk
  | popped chunk? => chunk?.toList
  | _ => []

namespace Counters

/-- The drained chunks that `counters'` has counted since `counters`. -/
structure Drains (counters : Counters) (drained : List Chunk) (counters' : Counters) : Prop where
  chunks : counters'.chunksDrained = counters.chunksDrained + drained.length
  bytes : counters'.bytesDrained = counters.bytesDrained + Chain.size drained

variable {counters counters' counters'' : Counters}

theorem Drains.refl (counters : Counters) : Drains counters [] counters where
  chunks := rfl
  bytes := rfl

theorem Drains.trans {drained drained' : List Chunk} (h : Drains counters drained counters')
    (h' : Drains counters' drained' counters'') :
    Drains counters (drained ++ drained') counters'' where
  chunks := by rw [h'.chunks, h.chunks, List.length_append, Nat.add_assoc]
  bytes := by rw [h'.bytes, h.bytes, Chain.size_append, Nat.add_assoc]

/-- A rollback drains nothing. -/
theorem drains_countRollback (dropped : Nat) (counters : Counters) :
    Drains counters [] (counters.countRollback dropped) := by
  rw [countRollback]
  split
  · exact .refl counters
  · exact ⟨rfl, rfl⟩

end Counters

namespace Queue

variable {M S : Type} [Supplier M]

/-- The chunks that an operation hands to the sink: a flush hands over what is left of the chain
after a rollback. -/
def delivered (q : Queue M S) : Operation → List Chunk
  | .flush => q.rollback.chain
  | _ => []

/-- A chunk is popped off what is left of the chain after a rollback. -/
theorem pop_eq (q : Queue M S) :
    q.pop = (q.rollback.chain.head?,
      match q.rollback.chain with
      | [] => q.rollback
      | chunk :: rest => { q.rollback with chain := rest }.depart chunk) := by
  cases hchain : q.rollback.chain <;> simp only [pop, hchain] <;> rfl

@[simp] theorem chain_pop (q : Queue M S) : q.pop.2.chain = q.rollback.chain.tail := by
  rw [pop_eq]
  cases hchain : q.rollback.chain with
  | nil => exact hchain
  | cons chunk rest => rfl

/-! ### Operations that drain nothing -/

@[simp] theorem sink_rollback (q : Queue M S) : q.rollback.sink = q.sink := by
  cases h : q.cursor <;> simp [rollback, h]

omit [Supplier M] in
@[simp] theorem sink_commit (q : Queue M S) : q.commit.sink = q.sink := by
  cases h : q.cursor <;> simp [commit, h]

theorem drains_rollback (q : Queue M S) : q.counters.Drains [] q.rollback.counters := by
  cases h : q.cursor with
  | none =>
    rw [rollback_of_cursor_eq_none h]
    exact .refl _
  | some first =>
    simp only [rollback, h]
    exact Counters.drains_countRollback _ _

omit [Supplier M] in
theorem drains_commit (q : Queue M S) : q.counters.Drains [] q.commit.counters := by
  cases h : q.cursor with
  | none =>
    simp only [commit, h]
    exact .refl _
  | some first =>
    simp only [commit, h]
    exact ⟨rfl, rfl⟩

theorem Grows.drains {units : List WireUnit} {fresh : Nat} {q q' : Queue M S}
    (h : Grows units fresh q q') : q.counters.Drains [] q'.counters := by
  rw [h.counters]
  exact ⟨rfl, rfl⟩

/-- A write leaves its trace, whatever becomes of it. -/
theorem grows_attempt (write : Write) (q : Queue M S) :
    ∃ stored fresh, q.Grows stored fresh (write.attempt q).2 := by
  rcases write.attempt_grows q with ⟨units, fresh, -, -, hgrows⟩ |
    ⟨stored, next, rest, fresh, fault, -, -, -, -, hgrows⟩ | ⟨fault, -, hrefused⟩
  · exact ⟨units, fresh, hgrows⟩
  · exact ⟨stored, fresh, hgrows⟩
  · rw [hrefused]
    exact ⟨[], 0, .refl q⟩

variable [Sink S]

/-- The chunks that leave in an operation, to the caller or to the sink. -/
def leaving (q : Queue M S) (operation : Operation) : List Chunk :=
  (q.perform operation).1.chunks ++ q.delivered operation

/-- The chunks that leave in a run, in order. -/
def outflow (q : Queue M S) : List Operation → List Chunk
  | [] => []
  | operation :: rest => q.leaving operation ++ (q.perform operation).2.outflow rest

theorem leaving_pop (q : Queue M S) : q.leaving .pop = q.rollback.chain.head?.toList := by
  show q.pop.1.toList ++ [] = _
  rw [pop_eq, List.append_nil]

theorem leaving_flush (q : Queue M S) : q.leaving .flush = q.rollback.chain := rfl

/-! ### A chunk given to the sink -/

@[simp] theorem chain_dispatch (q : Queue M S) (chunk : Chunk) :
    (q.dispatch chunk).chain = q.chain := by
  simp only [dispatch]
  split <;> rfl

@[simp] theorem cursor_dispatch (q : Queue M S) (chunk : Chunk) :
    (q.dispatch chunk).cursor = q.cursor := by
  simp only [dispatch]
  split <;> rfl

@[simp] theorem occupied_dispatch (q : Queue M S) (chunk : Chunk) :
    (q.dispatch chunk).occupied = q.occupied - chunk.length := by
  simp only [dispatch]
  split <;> rfl

@[simp] theorem sink_dispatch (q : Queue M S) (chunk : Chunk) :
    (q.dispatch chunk).sink = (Sink.deliver q.sink chunk).2 := by
  simp only [dispatch]
  split <;> rfl

theorem drains_dispatch (q : Queue M S) (chunk : Chunk) :
    q.counters.Drains [chunk] (q.dispatch chunk).counters := by
  simp only [dispatch]
  split
  · exact ⟨rfl, rfl⟩
  · exact ⟨rfl, rfl⟩

/-! ### Several chunks given to the sink -/

@[simp] theorem chain_dispatchAll (q : Queue M S) (chunks : Chain) :
    (chunks.foldl dispatch q).chain = q.chain := by
  induction chunks generalizing q with
  | nil => rfl
  | cons chunk chunks ih => rw [List.foldl_cons, ih, chain_dispatch]

@[simp] theorem cursor_dispatchAll (q : Queue M S) (chunks : Chain) :
    (chunks.foldl dispatch q).cursor = q.cursor := by
  induction chunks generalizing q with
  | nil => rfl
  | cons chunk chunks ih => rw [List.foldl_cons, ih, cursor_dispatch]

@[simp] theorem occupied_dispatchAll (q : Queue M S) (chunks : Chain) :
    (chunks.foldl dispatch q).occupied = q.occupied - chunks.size := by
  induction chunks generalizing q with
  | nil => rfl
  | cons chunk chunks ih =>
    rw [List.foldl_cons, ih, occupied_dispatch, Chain.size_cons, Nat.sub_add_eq]

@[simp] theorem sink_dispatchAll (q : Queue M S) (chunks : Chain) :
    (chunks.foldl dispatch q).sink = Sink.deliverAll q.sink chunks := by
  induction chunks generalizing q with
  | nil => rfl
  | cons chunk chunks ih =>
    rw [List.foldl_cons, ih, sink_dispatch]
    rfl

theorem drains_dispatchAll (q : Queue M S) (chunks : Chain) :
    q.counters.Drains chunks (chunks.foldl dispatch q).counters := by
  induction chunks generalizing q with
  | nil => exact .refl _
  | cons chunk chunks ih => exact (drains_dispatch q chunk).trans (ih (q.dispatch chunk))

/-! ### A flush -/

/-- A flush hands over, in order, what is left of the chain after a rollback. -/
theorem flush_eq (q : Queue M S) :
    q.flush = (q.rollback.chain.size,
      q.rollback.chain.foldl dispatch { q.rollback with chain := [] }) := rfl

@[simp] theorem chain_flush (q : Queue M S) : q.flush.2.chain = [] := by
  rw [flush_eq, chain_dispatchAll]

@[simp] theorem cursor_flush (q : Queue M S) : q.flush.2.cursor = none := by
  rw [flush_eq, cursor_dispatchAll]
  exact cursor_rollback q

@[simp] theorem occupied_flush (q : Queue M S) :
    q.flush.2.occupied = q.rollback.occupied - q.rollback.chain.size := by
  rw [flush_eq, occupied_dispatchAll]

/-! ### What an operation hands over -/

/-- **Only a flush talks to the sink.** The sink is given the chunks delivered, and nothing else
happens to it. -/
theorem sink_perform (q : Queue M S) (operation : Operation) :
    (q.perform operation).2.sink = Sink.deliverAll q.sink (q.delivered operation) := by
  cases operation with
  | startMessage => exact sink_rollback q
  | commit => exact sink_commit q
  | clear => rfl
  | write write =>
    obtain ⟨stored, fresh, hgrows⟩ := grows_attempt write q
    exact hgrows.sink
  | pop =>
    show q.pop.2.sink = q.sink
    rw [pop_eq, ← sink_rollback q]
    cases q.rollback.chain <;> rfl
  | flush =>
    show q.flush.2.sink = _
    rw [flush_eq, sink_dispatchAll, ← sink_rollback q]
    rfl
  | recycle chunk => rfl

/-- **What leaves is counted.** Chunks and bytes that leave in an operation show in the counters. -/
theorem drains_perform (q : Queue M S) (operation : Operation) :
    q.counters.Drains (q.leaving operation) (q.perform operation).2.counters := by
  cases operation with
  | startMessage => exact drains_rollback q
  | commit => exact drains_commit q
  | clear => exact .refl _
  | write write =>
    obtain ⟨stored, fresh, hgrows⟩ := grows_attempt write q
    exact hgrows.drains
  | pop =>
    show q.counters.Drains (q.leaving .pop) q.pop.2.counters
    rw [leaving_pop, pop_eq]
    cases q.rollback.chain with
    | nil => exact drains_rollback q
    | cons chunk rest => exact (drains_rollback q).trans ⟨rfl, rfl⟩
  | flush =>
    exact (drains_rollback q).trans
      (drains_dispatchAll { q.rollback with chain := [] } q.rollback.chain)
  | recycle chunk => exact ⟨rfl, rfl⟩

/-- Over a run, too, what leaves is counted. -/
theorem drains_run (q : Queue M S) (operations : List Operation) :
    q.counters.Drains (q.outflow operations) (q.run operations).2.counters := by
  induction operations generalizing q with
  | nil => exact .refl _
  | cons operation rest ih => exact (drains_perform q operation).trans (ih _)

end Queue

end WireQueue
