import WireQueue.Proofs.Invariant
import WireQueue.Supplier.Pool

/-! # A dropped message leaves no trace

A message that was begun on a queue can be dropped at any point, also after a write that failed on
its way. The queue is then as it was when the message began, and every chunk drawn for it is back at
the supplier.

* `Queue.grows_writes` — the trace of a list of writes, however each of them ends.
* `Queue.undone_of_grows` — a rollback takes back the whole trace, and so does every operation that
  begins with one. -/

namespace WireQueue

/-! ### The pool keeps count -/

namespace Pool

theorem outstanding_of_acquire_ok {pool final : Pool} {chunk : Chunk}
    (h : Supplier.acquire pool = (.ok chunk, final)) :
    final.outstanding = pool.outstanding + 1 := by
  change pool.acquire = _ at h
  unfold acquire at h
  split at h
  · cases h
  · cases h
    rfl

theorem outstanding_of_acquire_error {pool final : Pool} {fault : Fault}
    (h : Supplier.acquire pool = (.error fault, final)) :
    final.outstanding = pool.outstanding := by
  change pool.acquire = _ at h
  unfold acquire at h
  split at h
  · cases h
    rfl
  · cases h

theorem outstanding_of_drawn {pool final : Pool} {n : Nat} (h : Supplier.Drawn pool n final) :
    final.outstanding = pool.outstanding + n := by
  induction h with
  | refl => rfl
  | granted _ hacquire ih => rw [outstanding_of_acquire_ok hacquire, ih, Nat.add_assoc]
  | refused _ hacquire ih => rw [outstanding_of_acquire_error hacquire, ih]

theorem outstanding_reclaimAll (pool : Pool) (chunks : List Chunk) :
    (chunks.foldl Supplier.reclaim pool).outstanding = pool.outstanding - chunks.length := by
  induction chunks generalizing pool with
  | nil => rfl
  | cons chunk chunks ih =>
    have hfirst : (Supplier.reclaim pool chunk).outstanding = pool.outstanding - 1 := rfl
    rw [List.foldl_cons, ih, hfirst, List.length_cons, Nat.add_comm, Nat.sub_add_eq]

end Pool

theorem Counters.bytesRolledBack_countRollback (dropped : Nat) (counters : Counters) :
    (counters.countRollback dropped).bytesRolledBack = counters.bytesRolledBack + dropped := by
  unfold countRollback
  split
  · next hzero => rw [hzero, Nat.add_zero]
  · rfl

theorem Counters.messagesRolledBack_countRollback (dropped : Nat) (counters : Counters) :
    (counters.countRollback dropped).messagesRolledBack =
      counters.messagesRolledBack + if dropped = 0 then 0 else 1 := by
  unfold countRollback
  split
  · rfl
  · rfl

namespace Queue

variable {M S : Type} [Supplier M]

/-- `stopped` is `start` with more bytes written, and dropping these leads back to `start`. -/
structure Undone [Sink S] (start stopped : Queue M S) (stored : List UInt8) (fresh : Nat) :
    Prop where
  bytes : stopped.bytes = start.bytes ++ stored
  drawn : Supplier.Drawn start.supply fresh stopped.supply
  -- The next message begins where this one began,
  chain : stopped.startMessage.chain = start.chain
  cursor : stopped.startMessage.cursor = start.cursor
  occupied : stopped.startMessage.occupied = start.occupied
  sink : stopped.startMessage.sink = start.sink
  -- with the chunks given back and the loss counted.
  released : stopped.startMessage.supply =
    (List.replicate fresh Chunk.empty).foldl Supplier.reclaim stopped.supply
  bytesRolledBack : stopped.startMessage.counters.bytesRolledBack =
    start.counters.bytesRolledBack + stored.length
  messagesRolledBack : stopped.startMessage.counters.messagesRolledBack =
    start.counters.messagesRolledBack + if stored.length = 0 then 0 else 1
  -- What leaves is what would have left from `start`.
  popped : stopped.pop.1 = start.pop.1
  chain_pop : stopped.pop.2.chain = start.pop.2.chain
  flushed : stopped.flush.1 = start.flush.1
  delivered : stopped.delivered .flush = start.delivered .flush
  sink_flush : stopped.flush.2.sink = start.flush.2.sink
  chain_flush : stopped.flush.2.chain = start.flush.2.chain

/-! ### At the start of a message -/

theorem chain_startMessage (q : Queue M S) : q.startMessage.chain = q.rollback.chain := rfl

theorem cursor_startMessage (q : Queue M S) :
    q.startMessage.cursor =
      if q.startMessage.chain.isEmpty then none else some (q.startMessage.chain.length - 1) := rfl

variable [Sink S]

/-! ### Any number of writes -/

/-- Writes leave the trace of what they stored, taken together. -/
theorem grows_writes (writes : List Write) (q : Queue M S) :
    ∃ stored fresh, q.Grows stored fresh (q.run (writes.map .write)).2 := by
  induction writes generalizing q with
  | nil => exact ⟨[], 0, .refl q⟩
  | cons write writes ih =>
    obtain ⟨stored, fresh, hfirst⟩ := grows_attempt write q
    obtain ⟨stored', fresh', hrest⟩ := ih (write.attempt q).2
    exact ⟨stored ++ stored', fresh + fresh', hfirst.trans hrest⟩

/-! ### The trace is taken back -/

/-- Where no message is open, a rollback takes back whatever was written since. -/
theorem undone_of_grows {q stopped : Queue M S} {units : List WireUnit} {fresh : Nat}
    (h : q.WellFormed) (hstopped : stopped.WellFormed)
    (hgrows : q.startMessage.Grows units fresh stopped) :
    Undone q.startMessage stopped (unitBytes units) fresh := by
  have hstart := h.startMessage
  have hsettled : q.startMessage.chain.Settled := h.settled_rollback
  -- At the start nothing is open, so what a rollback finds later is the trace and no more.
  have hsame : q.startMessage.chain.rollback = q.startMessage.chain :=
    hsettled.rollback_eq hstart.filled
  have hchain : stopped.rollback.chain = q.startMessage.chain := by
    rw [hstopped.chain_rollback, hgrows.laid.rollback, hsame]
  have hrollback : q.startMessage.rollback.chain = q.startMessage.chain := by
    rw [hstart.chain_rollback, hsame]
  have huncommitted : stopped.chain.uncommitted = unitBytes units := by
    rw [hgrows.laid.uncommitted, hsettled.uncommitted_eq_nil, List.nil_append]
  have hemptied : stopped.chain.emptied = List.replicate fresh Chunk.empty := by
    have hlength : stopped.chain.emptied.length = fresh := by
      rw [hgrows.laid.emptied, hsettled.emptied_eq hstart.filled, List.length_nil, Nat.zero_add]
    rw [Chain.emptied_eq_replicate, hlength]
  have hdelivered : stopped.delivered .flush = q.startMessage.delivered .flush :=
    hchain.trans hrollback.symm
  have hcounters : stopped.startMessage.counters =
      (q.startMessage.counters.countUnits units fresh).countRollback (unitBytes units).length := by
    show stopped.rollback.counters = _
    rw [hstopped.rollback_eq, ← hgrows.counters, ← huncommitted]
  exact
    { bytes := by
        show stopped.chain.bytes = q.startMessage.chain.bytes ++ unitBytes units
        rw [hstopped.marked.bytes_eq, hgrows.laid.committed, huncommitted, hsettled.bytes_eq]
      drawn := hgrows.supply
      chain := hchain
      cursor := by
        rw [cursor_startMessage, cursor_startMessage q, chain_startMessage stopped, hchain]
      occupied := by
        rw [hstopped.startMessage.occupied, hstart.occupied, chain_startMessage stopped, hchain]
      sink := by
        show stopped.rollback.sink = _
        rw [sink_rollback, hgrows.sink]
      released := by
        show stopped.rollback.supply = _
        rw [hstopped.rollback_eq, hemptied]
      bytesRolledBack := by
        rw [hcounters, Counters.bytesRolledBack_countRollback]
        rfl
      messagesRolledBack := by
        rw [hcounters, Counters.messagesRolledBack_countRollback]
        rfl
      popped := by
        rw [pop_eq, pop_eq, hchain, hrollback]
      chain_pop := by
        rw [Queue.chain_pop, Queue.chain_pop, hchain, hrollback]
      flushed := by
        show Chain.size (stopped.delivered .flush) = Chain.size (q.startMessage.delivered .flush)
        rw [hdelivered]
      delivered := hdelivered
      sink_flush := by
        show (stopped.perform .flush).2.sink = (q.startMessage.perform .flush).2.sink
        rw [sink_perform, sink_perform, hdelivered, hgrows.sink]
      chain_flush := by
        rw [Queue.chain_flush, Queue.chain_flush] }

/-- **Rollback restores.** A message of any writes, each of which may succeed, be refused or stop on
its way, is dropped without a trace; a pool has then as many chunks in circulation as before. -/
theorem undone_of_reachable :
    (∀ {M S : Type} [Supplier M] [Sink S] {q : Queue M S}, Reachable q → ∀ writes : List Write,
      ∃ stored fresh,
        Undone q.startMessage (q.startMessage.run (writes.map .write)).2 stored fresh) ∧
    ∀ {S : Type} [Sink S] {q : Queue Pool S}, Reachable q → ∀ writes : List Write,
      (q.startMessage.run (writes.map .write)).2.startMessage.supply.outstanding =
        q.startMessage.supply.outstanding := by
  have hundone {M S : Type} [Supplier M] [Sink S] {q : Queue M S} (h : Reachable q)
      (writes : List Write) : ∃ stored fresh,
        Undone q.startMessage (q.startMessage.run (writes.map .write)).2 stored fresh := by
    have hq := wellFormed_of_reachable h
    obtain ⟨units, fresh, hgrows⟩ := grows_writes writes q.startMessage
    exact ⟨unitBytes units, fresh, undone_of_grows hq (hq.startMessage.run _) hgrows⟩
  refine ⟨hundone, ?_⟩
  intro S _ q h writes
  obtain ⟨stored, fresh, hundone⟩ := hundone h writes
  rw [hundone.released, Pool.outstanding_reclaimAll, Pool.outstanding_of_drawn hundone.drawn,
    List.length_replicate, Nat.add_sub_cancel]

/-- Behind two committed bytes, a message of four bytes and a refused request is dropped. -/
theorem undone_of_reachable_pool :
    ∃ (q : Queue Pool Transcript) (writes : List Write), Reachable q ∧ writes.length = 2 ∧
      (∃ stored fresh,
        Undone q.startMessage (q.startMessage.run (writes.map .write)).2 stored fresh) ∧
      (q.startMessage.run (writes.map .write)).2.startMessage.supply.outstanding =
        q.startMessage.supply.outstanding ∧
      q.startMessage.supply.outstanding = 1 := by
  have hreachable : Reachable (Queue.new Pool.standard ({} : Transcript)) := .new _ _
  have hq := hreachable.run [.write (.word16 1), .commit]
  let writes : List Write := [.word32 2, .values .string (.string []) 1]
  exact ⟨_, writes, hq, rfl, undone_of_reachable.1 hq writes, undone_of_reachable.2 hq writes, rfl⟩

end Queue

end WireQueue
