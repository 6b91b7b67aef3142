import WireQueue.Proofs.Bounds
import WireQueue.Proofs.Logging
import WireQueue.Sink.Recorded

/-! # What a flush hands over

A flush drops the open message and then takes chunk after chunk off the chain. What the sink sees of
it is written down by `Recorded`, which changes nothing, and what the supplier sees by `Logged`.

* `Recorded.calls_deliverAll` — the calls that a sink sees when it is given several chunks.
* `Queue.flush_unrecorded` — a flush with a record is the flush without it.
* `Queue.Flushes` — every committed byte is handed over once and in order, and nothing is left. -/

namespace WireQueue

/-! ### Chunks that are due -/

/-- The chunks that hold committed bytes, with nothing else in them. -/
def Chain.due (chain : Chain) : Chain :=
  (chain.filter fun chunk => !chunk.committed.isEmpty).map Chunk.rollback

/-- A rollback leaves the chunks that are due. -/
theorem Chain.rollback_eq_due (chain : Chain) : chain.rollback = chain.due := by
  have hempty : (fun chunk : Chunk => !chunk.isEmpty) ∘ Chunk.rollback =
      fun chunk => !chunk.committed.isEmpty := by
    funext chunk
    rw [Function.comp_apply, Chunk.isEmpty, Chunk.length_rollback]
    cases chunk.committed <;> rfl
  rw [Chain.rollback, List.filter_map, hempty, Chain.due]

/-! ### Sinks that are given several chunks -/

namespace Sink

variable {S : Type} [Sink S]

/-- The calls that a sink sees when it is given the chunks, with its answers. -/
def exchanges (sink : S) : List Chunk → List Call
  | [] => []
  | chunk :: chunks =>
    { given := chunk, returned := (Sink.deliver sink chunk).1 } ::
      exchanges (Sink.deliver sink chunk).2 chunks

theorem given_exchanges (sink : S) (chunks : List Chunk) :
    (exchanges sink chunks).map Call.given = chunks := by
  induction chunks generalizing sink with
  | nil => rfl
  | cons chunk chunks ih => rw [exchanges, List.map_cons, ih]

theorem returned_exchanges (sink : S) (chunks : List Chunk) :
    (exchanges sink chunks).filterMap Call.returned = givenBack sink chunks := by
  induction chunks generalizing sink with
  | nil => rfl
  | cons chunk chunks ih =>
    rw [exchanges, givenBack_cons, List.filterMap_cons, ih]
    cases (Sink.deliver sink chunk).1 <;> rfl

end Sink

/-- The record grows by the calls. -/
theorem Recorded.calls_deliverAll {S : Type} [Sink S] (recorded : Recorded S)
    (chunks : List Chunk) :
    (Sink.deliverAll recorded chunks).calls =
      recorded.calls ++ Sink.exchanges recorded.sink chunks := by
  induction chunks generalizing recorded with
  | nil => exact (List.append_nil _).symm
  | cons chunk chunks ih =>
    have hrest := ih (Sink.deliver recorded chunk).2
    rw [Sink.exchanges, List.append_cons]
    exact hrest

/-- A transcript copies all of the bytes. -/
theorem Transcript.bytes_deliverAll (transcript : Transcript) (chunks : List Chunk) :
    (Sink.deliverAll transcript chunks).bytes = transcript.bytes ++ Chain.bytes chunks := by
  induction chunks generalizing transcript with
  | nil => exact (List.append_nil _).symm
  | cons chunk chunks ih =>
    have hrest := ih (Sink.deliver transcript chunk).2
    rw [Chain.bytes_cons, ← List.append_assoc]
    exact hrest

/-- A keeper has all of the bytes in the chunks that it keeps. -/
theorem Keeper.bytes_deliverAll (keeper : Keeper) (chunks : List Chunk) :
    (Sink.deliverAll keeper chunks).bytes = keeper.bytes ++ Chain.bytes chunks := by
  induction chunks generalizing keeper with
  | nil => exact (List.append_nil _).symm
  | cons chunk chunks ih =>
    have hrest := ih (Sink.deliver keeper chunk).2
    have hfirst : (Sink.deliver keeper chunk).2.bytes = keeper.bytes ++ chunk.bytes := by
      show (keeper.chunks ++ [chunk]).flatMap Chunk.bytes = _
      rw [List.flatMap_append, List.flatMap_singleton]
      rfl
    rw [Chain.bytes_cons, ← List.append_assoc, ← hfirst]
    exact hrest

namespace Queue

variable {M S : Type}

/-! ### A record makes no difference -/

/-- The queue over another sink. -/
def withSink {S' : Type} (sink : S') (q : Queue M S) : Queue M S' := { q with sink }

/-- The queue over a sink that starts a record. -/
def recorded (q : Queue M S) : Queue M (Recorded S) := q.withSink { sink := q.sink }

/-- The queue over the sink without its record. -/
def unrecorded (q : Queue M (Recorded S)) : Queue M S := q.withSink q.sink.sink

variable [Supplier M]

/-- The sink has no part in a rollback. -/
theorem rollback_withSink {S' : Type} (sink : S') (q : Queue M S) :
    (q.withSink sink).rollback = q.rollback.withSink sink := by
  cases hcursor : q.cursor with
  | none =>
    rw [rollback_of_cursor_eq_none hcursor]
    exact rollback_of_cursor_eq_none hcursor
  | some first => simp [rollback, withSink, hcursor]

theorem rollback_unrecorded (q : Queue M (Recorded S)) :
    q.unrecorded.rollback = q.rollback.unrecorded := by
  rw [unrecorded, rollback_withSink, unrecorded, sink_rollback]

variable [Sink S]

theorem dispatch_unrecorded (q : Queue M (Recorded S)) (chunk : Chunk) :
    q.unrecorded.dispatch chunk = (q.dispatch chunk).unrecorded := by
  rcases hdeliver : Sink.deliver q.sink.sink chunk with ⟨returned, sink⟩
  have hrecorded : Sink.deliver q.sink chunk =
      (returned, { sink, calls := q.sink.calls ++ [{ given := chunk, returned }] }) := by
    show Recorded.deliver q.sink chunk = _
    rw [Recorded.deliver, hdeliver]
  cases returned with
  | none => simp only [dispatch, depart, unrecorded, withSink, hdeliver, hrecorded]
  | some returned => simp only [dispatch, depart, unrecorded, withSink, hdeliver, hrecorded]; rfl

theorem dispatchAll_unrecorded (q : Queue M (Recorded S)) (chunks : Chain) :
    chunks.foldl dispatch q.unrecorded = (chunks.foldl dispatch q).unrecorded := by
  induction chunks generalizing q with
  | nil => rfl
  | cons chunk chunks ih =>
    rw [List.foldl_cons, List.foldl_cons, dispatch_unrecorded, ih]

/-- A flush with a record is the flush without it. -/
theorem flush_unrecorded (q : Queue M (Recorded S)) :
    q.unrecorded.flush = (q.flush.1, q.flush.2.unrecorded) := by
  simp only [flush_eq, rollback_unrecorded]
  rw [← dispatchAll_unrecorded]
  rfl

/-- The calls that the sink sees in a flush. -/
def sinkCalls (q : Queue M S) : List Sink.Call := q.recorded.flush.2.sink.calls

theorem flush_recorded (q : Queue M S) :
    q.recorded.flush.1 = q.flush.1 ∧ q.recorded.flush.2.unrecorded = q.flush.2 := by
  have hflush := flush_unrecorded q.recorded
  have hsame : q.recorded.unrecorded = q := rfl
  rw [hsame] at hflush
  rw [hflush]
  exact ⟨rfl, rfl⟩

/-! ### What is handed over -/

/-- The sink is given what is due. -/
theorem WellFormed.sink_flush {q : Queue M S} (h : q.WellFormed) :
    q.flush.2.sink = Sink.deliverAll q.sink q.chain.due := by
  rw [flush_eq, sink_dispatchAll, ← Chain.rollback_eq_due, ← h.chain_rollback, ← sink_rollback q]

theorem WellFormed.sinkCalls_eq {q : Queue M S} (h : q.WellFormed) :
    q.sinkCalls = Sink.exchanges q.sink q.chain.due := by
  have hrecorded : q.recorded.WellFormed := h.congr rfl rfl rfl
  rw [sinkCalls, hrecorded.sink_flush, Recorded.calls_deliverAll]
  exact List.nil_append _

/-- Back to the supplier go the chunks without a committed byte, and then those that the sink does
not keep. -/
theorem WellFormed.supply_flush {q : Queue M S} (h : q.WellFormed) :
    q.flush.2.supply =
      (q.chain.emptied ++ Sink.givenBack q.sink q.chain.due).foldl Supplier.reclaim q.supply := by
  have hrollback : q.rollback.supply = q.chain.emptied.foldl Supplier.reclaim q.supply := by
    rw [h.rollback_eq]
  rw [flush_eq, supply_dispatchAll, List.foldl_append, ← hrollback, ← Chain.rollback_eq_due,
    ← h.chain_rollback, ← sink_rollback q]

/-- Without an open message and without chunks there is nothing to do. -/
theorem flush_of_nil {q : Queue M S} (hcursor : q.cursor = none) (hchain : q.chain = []) :
    q.flush = (0, q) := by
  obtain ⟨supply, sink, chain, cursor, occupied, counters⟩ := q
  cases hcursor
  cases hchain
  rfl

theorem WellFormed.count_flush {q : Queue M S} (h : q.WellFormed) :
    q.flush.1 = q.chain.committed.length := by
  rw [flush_eq, h.chain_rollback, ← Chain.length_bytes, Chain.bytes_rollback]

/-- What a flush does to a queue, its sink and its supplier. -/
structure Flushes (q : Queue M S) : Prop where
  /-- In place, the loop comes to its end. -/
  inPlace : (BufferQueue.ofQueue q).flush? = some (q.flush.1, BufferQueue.ofQueue q.flush.2)
  /-- The answer is the number of committed bytes. -/
  count_eq : q.flush.1 = q.chain.committed.length
  /-- Nothing is left in the queue. -/
  chain_eq : q.flush.2.chain = []
  occupied_eq : q.flush.2.occupied = 0
  cursor_eq : q.flush.2.cursor = none
  /-- The recorded calls are those of this flush. -/
  recorded : q.recorded.flush.1 = q.flush.1 ∧ q.recorded.flush.2.unrecorded = q.flush.2
  /-- Each chunk that is due is given once, in order, and no other one is. -/
  given_eq : q.sinkCalls.map Sink.Call.given = q.chain.due
  drains : q.counters.Drains q.chain.due q.flush.2.counters
  recycled_eq : q.flush.2.counters.chunksRecycled =
    q.counters.chunksRecycled + (q.sinkCalls.filterMap Sink.Call.returned).length
  /-- The supplier gets back each chunk without a committed byte and each that the sink returned,
  and is asked for nothing. -/
  calls_eq : q.calls [.flush] =
    (q.chain.emptied ++ q.sinkCalls.filterMap Sink.Call.returned).map .reclaimed
  /-- Copied or kept, the committed bytes arrive as one string. -/
  copied : ∀ transcript : Transcript,
    (q.withSink transcript).flush.2.sink.bytes = transcript.bytes ++ q.chain.committed
  kept : ∀ keeper : Keeper,
    (q.withSink keeper).flush.2.sink.bytes = keeper.bytes ++ q.chain.committed
  /-- A second flush changes nothing. -/
  again : q.flush.2.flush = (0, q.flush.2)

theorem WellFormed.flushes {q : Queue M S} (h : q.WellFormed) : q.Flushes where
  inPlace := BufferQueue.flush?_ofQueue h
  count_eq := h.count_flush
  chain_eq := chain_flush q
  occupied_eq := by
    rw [h.flush.occupied, chain_flush]
    rfl
  cursor_eq := cursor_flush q
  recorded := flush_recorded q
  given_eq := by rw [h.sinkCalls_eq, Sink.given_exchanges]
  drains := by
    have hdrains := drains_perform q .flush
    rw [leaving_flush, h.chain_rollback, Chain.rollback_eq_due] at hdrains
    exact hdrains
  recycled_eq := by
    have hrecycled : q.rollback.counters.chunksRecycled = q.counters.chunksRecycled := by
      rw [h.rollback_eq]
      exact (Counters.chunks_countRollback _ _).2.2
    rw [h.sinkCalls_eq, Sink.returned_exchanges, flush_eq, recycled_dispatchAll,
      ← Chain.rollback_eq_due, ← h.chain_rollback, ← hrecycled, ← sink_rollback q]
  calls_eq := by
    have hcalls : q.calls [.flush] = q.logged.flush.2.supply.calls := rfl
    have hlogged : q.logged.WellFormed := h.congr rfl rfl rfl
    rw [hcalls, hlogged.supply_flush, Logged.calls_reclaimAll, h.sinkCalls_eq,
      Sink.returned_exchanges]
    exact List.nil_append _
  copied := by
    intro transcript
    have hsink : (q.withSink transcript).WellFormed := h.congr rfl rfl rfl
    rw [hsink.sink_flush, Transcript.bytes_deliverAll, ← Chain.rollback_eq_due,
      Chain.bytes_rollback]
    rfl
  kept := by
    intro keeper
    have hsink : (q.withSink keeper).WellFormed := h.congr rfl rfl rfl
    rw [hsink.sink_flush, Keeper.bytes_deliverAll, ← Chain.rollback_eq_due,
      Chain.bytes_rollback]
    rfl
  again := flush_of_nil (cursor_flush q) (chain_flush q)

/-- **Everything committed, once and in order.** In every queue that a caller can bring about, a
flush hands over the committed bytes and leaves nothing behind. -/
theorem flushes_of_reachable {q : Queue M S} (h : Reachable q) : q.Flushes :=
  (wellFormed_of_reachable h).flushes

/-- The open message shares its chunk with a committed one. -/
theorem flushes_of_reachable_shared :
    ∃ q : Queue Shelf Alternating, Reachable q ∧ q.Flushes ∧ q.occupied = 6 ∧ q.flush.1 = 2 ∧
      q.sinkCalls.map Sink.Call.given = [⟨[0, 1], []⟩] := by
  have hreachable : Reachable (Queue.new ({} : Shelf) ({} : Alternating)) := .new _ _
  have hrun := hreachable.run
    [.write (.word16 1), .commit, .startMessage, .write (.word32 2)]
  have hflushes := flushes_of_reachable hrun
  refine ⟨_, hrun, hflushes, rfl, ?_, ?_⟩
  · rw [hflushes.count_eq]
    rfl
  · rw [hflushes.given_eq]
    rfl

end Queue

end WireQueue
