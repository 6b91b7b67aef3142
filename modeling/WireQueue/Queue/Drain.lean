import WireQueue.Queue.Basic

/-! # Draining the queue

Only committed bytes leave the queue: a chunk is taken off the head of the chain after the open
message, if any, has been dropped. `pop` hands one chunk to the caller, and `flush` hands all of
them to the sink; `recycle` is the way back for a chunk that was handed out. -/

namespace WireQueue

namespace Queue

variable {M S : Type} [Supplier M]

/-- Counts a chunk that leaves the chain. -/
def depart (chunk : Chunk) (q : Queue M S) : Queue M S :=
  { q with
    occupied := q.occupied - chunk.length
    counters := q.counters.countDrained chunk.length }

/-- Takes the first chunk off the chain, once the open message is dropped. -/
def pop (q : Queue M S) : Option Chunk × Queue M S :=
  let q := q.rollback
  match q.chain with
  | [] => (none, q)
  | chunk :: rest => (some chunk, { q with chain := rest }.depart chunk)

/-- Gives a drained chunk back to the supplier. -/
def recycle (chunk : Chunk) (q : Queue M S) : Queue M S :=
  { q with
    supply := Supplier.reclaim q.supply chunk
    counters := q.counters.countRecycled }

variable [Sink S]

/-- Hands a chunk that has left the chain to the sink, and recycles it if the sink gives it back. -/
def dispatch (q : Queue M S) (chunk : Chunk) : Queue M S :=
  let q := q.depart chunk
  let (returned, sink) := Sink.deliver q.sink chunk
  match returned with
  | none => { q with sink }
  | some returned => { q with sink }.recycle returned

/-- Drops the open message and hands every chunk to the sink, in order. Gives the number of bytes
handed over. -/
def flush (q : Queue M S) : Nat × Queue M S :=
  let q := q.rollback
  (q.chain.size, q.chain.foldl dispatch { q with chain := [] })

end Queue

end WireQueue
