import WireQueue.Proofs.Logging
import WireQueue.Proofs.Packing
import WireQueue.Proofs.Rollback

/-! # Nothing gets lost

Whatever is done to a queue, in whichever order, two sums come out even. The bytes that writes have
stored are in the queue, or have been drained, rolled back or discarded by a clear. The chunks that
the supplier has handed out are in the chain, or have been drained, or are back with it; and besides
these it has back what was recycled.

* `Queue.WellFormed.bytes_perform`, `Queue.WellFormed.bytes_run` — the sum of the bytes.
* `Queue.Booked.perform` — the sum of the chunks, against the log of the supplier. -/

namespace WireQueue

namespace Queue

variable {M S : Type} [Supplier M]

/-! ### Bytes -/

/-- What a rollback takes out of the chain it counts. -/
theorem WellFormed.bytes_rollback {q : Queue M S} (h : q.WellFormed) :
    q.rollback.occupied + q.rollback.counters.bytesRolledBack =
      q.occupied + q.counters.bytesRolledBack := by
  rw [h.rollback_eq]
  show q.chain.committed.length +
    (q.counters.countRollback q.chain.uncommitted.length).bytesRolledBack = _
  rw [Counters.bytesRolledBack_countRollback, h.occupied, Chain.size_eq_add]
  omega

/-- A write takes no bytes away. -/
theorem size_attempt (write : Write) (q : Queue M S) :
    (write.attempt q).2.chain.size = q.chain.size + q.gain (.write write) := by
  obtain ⟨stored, fresh, hgrows⟩ := grows_attempt write q
  have hsize : (write.attempt q).2.chain.size = q.chain.size + (unitBytes stored).length := by
    rw [← Chain.length_bytes, hgrows.laid.bytes, List.length_append, Chain.length_bytes]
  rw [gain]
  omega

variable [Sink S]

/-- The number of bytes that an operation discards without a count: a clear discards all there are.
-/
def discarded (q : Queue M S) : Operation → Nat
  | .clear => q.occupied
  | _ => 0

/-- The number of bytes that the clears of a run discard. -/
def discards (q : Queue M S) : List Operation → Nat
  | [] => 0
  | operation :: rest => q.discarded operation + (q.perform operation).2.discards rest

theorem bytes_pop (q : Queue M S) (hrollback : q.rollback.WellFormed) :
    q.pop.2.occupied + Chain.size (q.leaving .pop) + q.pop.2.counters.bytesRolledBack =
      q.rollback.occupied + q.rollback.counters.bytesRolledBack := by
  have hoccupied := hrollback.occupied
  rw [leaving_pop, pop_eq]
  cases hchain : q.rollback.chain with
  | nil => rfl
  | cons chunk rest =>
    rw [hchain, Chain.size_cons] at hoccupied
    show q.rollback.occupied - chunk.length + (chunk.length + 0) +
      q.rollback.counters.bytesRolledBack = _
    omega

theorem bytes_flush (q : Queue M S) (hrollback : q.rollback.WellFormed) :
    q.flush.2.occupied + Chain.size (q.leaving .flush) + q.flush.2.counters.bytesRolledBack =
      q.rollback.occupied + q.rollback.counters.bytesRolledBack := by
  have hoccupied := hrollback.occupied
  have hrolledBack : q.flush.2.counters.bytesRolledBack = q.rollback.counters.bytesRolledBack :=
    counters_dispatchAll (fun _ _ => rfl) (fun _ => rfl) _ _
  rw [hrolledBack, occupied_flush, leaving_flush]
  omega

/-- **The step.** No operation gains or loses a byte that is not accounted for. -/
theorem WellFormed.bytes_perform {q : Queue M S} (h : q.WellFormed) (operation : Operation) :
    q.occupied + q.counters.bytesDrained + q.counters.bytesRolledBack + q.gain operation =
      (q.perform operation).2.occupied + (q.perform operation).2.counters.bytesDrained +
        (q.perform operation).2.counters.bytesRolledBack + q.discarded operation := by
  have hrollback := h.bytes_rollback
  have hdrained := (drains_perform q operation).bytes
  rw [hdrained]
  cases operation with
  | startMessage =>
    show _ + 0 = q.rollback.occupied + (q.counters.bytesDrained + 0) +
      q.rollback.counters.bytesRolledBack + 0
    omega
  | commit =>
    show _ = q.commit.occupied + (q.counters.bytesDrained + 0) +
      q.commit.counters.bytesRolledBack + 0
    rw [h.commit_eq]
    split <;> rfl
  | clear =>
    show _ + 0 = 0 + (q.counters.bytesDrained + 0) + q.counters.bytesRolledBack + q.occupied
    omega
  | write write =>
    obtain ⟨stored, fresh, hgrows⟩ := grows_attempt write q
    have hsize := size_attempt write q
    rw [← h.occupied, ← (h.attempt write).occupied] at hsize
    have hcounters : (write.attempt q).2.counters.bytesRolledBack = q.counters.bytesRolledBack := by
      rw [hgrows.counters]
      rfl
    show _ = (write.attempt q).2.occupied + (q.counters.bytesDrained + 0) +
      (write.attempt q).2.counters.bytesRolledBack + 0
    rw [hsize, hcounters]
    omega
  | pop =>
    have hpop := bytes_pop q h.rollback
    show q.occupied + _ + _ + 0 = q.pop.2.occupied + _ + q.pop.2.counters.bytesRolledBack + 0
    omega
  | flush =>
    have hflush := bytes_flush q h.rollback
    show q.occupied + _ + _ + 0 = q.flush.2.occupied + _ + q.flush.2.counters.bytesRolledBack + 0
    omega
  | recycle chunk => rfl

/-- **The run.** Over a run, too, every byte is accounted for. -/
theorem WellFormed.bytes_run {q : Queue M S} (h : q.WellFormed) (operations : List Operation) :
    q.occupied + q.counters.bytesDrained + q.counters.bytesRolledBack + q.intake operations =
      (q.run operations).2.occupied + (q.run operations).2.counters.bytesDrained +
        (q.run operations).2.counters.bytesRolledBack + q.discards operations := by
  induction operations generalizing q with
  | nil => rfl
  | cons operation rest ih =>
    have hstep := h.bytes_perform operation
    have hrest := ih (h.perform operation)
    show _ = ((q.perform operation).2.run rest).2.occupied +
      ((q.perform operation).2.run rest).2.counters.bytesDrained +
        ((q.perform operation).2.run rest).2.counters.bytesRolledBack + _
    rw [intake, discards]
    omega

/-! ### Chunks -/

/-- The counters of chunks agree with the log of the supplier. -/
structure Booked (q : Queue (Logged M) S) : Prop where
  acquired : q.counters.chunksAcquired = q.supply.calls.countP Supplier.Call.isGranted
  /-- What was never handed out is neither in the chain nor drained. -/
  used_le : q.chunkCount + q.counters.chunksDrained ≤ q.counters.chunksAcquired
  reclaimed : q.supply.calls.countP Supplier.Call.isReclaimed + q.chunkCount +
    q.counters.chunksDrained = q.counters.chunksAcquired + q.counters.chunksRecycled

/-- **The step.** Every operation keeps the counters in line with the log. -/
theorem Booked.perform {q : Queue (Logged M) S} (h : q.Booked) (operation : Operation) :
    (q.perform operation).2.Booked := by
  obtain ⟨hacquired, hused, hreclaimed⟩ := h
  rcases q.deals_perform operation with ⟨_, units, fresh, -, hgrows⟩ | ⟨released, hback⟩
  · obtain ⟨hgranted, hsame⟩ := Logged.counts_of_drawn hgrows.supply
    have hchain : (q.perform operation).2.chunkCount = q.chunkCount + fresh := hgrows.laid.length_eq
    exact
      { acquired := by
          rw [hgrows.counters, hgranted, ← hacquired]
          rfl
        used_le := by
          rw [hgrows.counters, hchain]
          show q.chunkCount + fresh + q.counters.chunksDrained ≤ q.counters.chunksAcquired + fresh
          omega
        reclaimed := by
          rw [hgrows.counters, hchain, hsame]
          show _ + (q.chunkCount + fresh) + q.counters.chunksDrained =
            q.counters.chunksAcquired + fresh + q.counters.chunksRecycled
          omega }
  · obtain ⟨chunks, hlength, hsupply⟩ := hback.supply
    obtain ⟨hsame, hmore⟩ := Logged.counts_reclaimAll q.supply chunks
    have hcount := hback.chunkCount
    have hdrained := hback.drained
    have hrecycled := hback.recycled
    exact
      { acquired := by rw [hback.acquired, hsupply, hsame, hacquired]
        used_le := by
          rw [hback.acquired]
          omega
        reclaimed := by
          rw [hback.acquired, hsupply, hmore]
          omega }

/-- **The run.** Every run keeps the counters in line with the log. -/
theorem Booked.run {q : Queue (Logged M) S} (h : q.Booked) (operations : List Operation) :
    (q.run operations).2.Booked := by
  induction operations generalizing q with
  | nil => exact h
  | cons operation rest ih => exact ih (h.perform operation)

omit [Sink S] in
/-- A queue that is closed gives its chunks back, first to last. -/
theorem calls_close (q : Queue (Logged M) S) :
    q.close.1.calls = q.supply.calls ++ q.chain.map Supplier.Call.reclaimed :=
  Logged.calls_reclaimAll q.supply q.chain

/-! ### Both sums -/

/-- What has become of bytes and chunks when a run of `q` has ended in `final`. -/
structure Conserved (q : Queue M S) (operations : List Operation) (final : Queue M S) : Prop where
  /-- Stored bytes are still there, or drained, or rolled back, or discarded. -/
  bytes : q.intake operations =
    final.occupied + final.counters.bytesDrained + final.counters.bytesRolledBack +
      q.discards operations
  acquired : final.counters.chunksAcquired =
    (q.calls operations).countP Supplier.Call.isGranted
  used_le : final.chunkCount + final.counters.chunksDrained ≤ final.counters.chunksAcquired
  /-- Chunks neither in the chain nor drained are back, and so are the recycled ones. -/
  reclaimed : (q.calls operations).countP Supplier.Call.isReclaimed =
    final.counters.chunksAcquired - final.chunkCount - final.counters.chunksDrained +
      final.counters.chunksRecycled
  /-- On closing, the chunks of the chain go back as well, once each and in order. -/
  closing : (q.logged.run operations).2.close.1.calls =
    q.calls operations ++ final.chain.map Supplier.Call.reclaimed
  /-- The log from which the calls are taken belongs to the same run. -/
  unlogged : (q.logged.run operations).1 = (q.run operations).1 ∧
    (q.logged.run operations).2.unlogged = final

/-- **Conservation.** Over any supplier and any sink, every run of a new queue conserves bytes and
chunks. -/
theorem conserved_new (supply : M) (sink : S) (operations : List Operation) :
    (Queue.new supply sink).Conserved operations ((Queue.new supply sink).run operations).2 := by
  have hlogged := run_logged (Queue.new supply sink) operations
  have hnew : (Queue.new supply sink).logged.Booked := ⟨rfl, Nat.le_refl _, rfl⟩
  obtain ⟨hacquired, hused, hreclaimed⟩ := hnew.run operations
  have hbytes := (wellFormed_new supply sink).bytes_run operations
  have hclosing := calls_close ((Queue.new supply sink).logged.run operations).2
  rw [← hlogged.2]
  exact
    { bytes := by
        rw [hlogged.2, ← hbytes]
        simp [Queue.new]
      acquired := hacquired
      used_le := hused
      reclaimed := by
        show _ = ((Queue.new supply sink).logged.run operations).2.counters.chunksAcquired -
          ((Queue.new supply sink).logged.run operations).2.chunkCount -
          ((Queue.new supply sink).logged.run operations).2.counters.chunksDrained +
          ((Queue.new supply sink).logged.run operations).2.counters.chunksRecycled
        rw [calls]
        omega
      closing := hclosing
      unlogged := ⟨hlogged.1, rfl⟩ }

end Queue

end WireQueue
