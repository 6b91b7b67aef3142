import WireQueue.Chain
import WireQueue.Counters
import WireQueue.Sink
import WireQueue.Supplier

/-! # The queue

A queue keeps outbound bytes in a chain of chunks until a sink takes them. It draws chunks from a
supplier and gives them back to it.

Bytes are written in messages. Until a message is committed its bytes can be dropped, which happens
when the next message starts and whenever a chunk leaves the queue. The cursor is the index of the
first chunk that may hold bytes of the open message: the chunks before it are fully committed, and
`commit` and `rollback` only look from there on. -/

namespace WireQueue

/-- A queue over suppliers `M` and sinks `S`. -/
structure Queue (M S : Type) where
  supply : M
  sink : S
  /-- The chunks that hold bytes, in transmission order. -/
  chain : Chain := []
  /-- The first chunk that may hold uncommitted bytes, if a message is open. -/
  cursor : Option Nat := none
  /-- Bytes in the chain, kept up to date by every operation. -/
  occupied : Nat := 0
  counters : Counters := {}

namespace Queue

variable {M S : Type}

/-- The empty queue over a supplier and a sink. -/
def new (supply : M) (sink : S) : Queue M S := { supply, sink }

/-- Number of chunks in the chain. -/
def chunkCount (q : Queue M S) : Nat := q.chain.length

/-- All bytes in the chain. -/
def bytes (q : Queue M S) : List UInt8 := q.chain.bytes

/-! ### When to flush -/

/-- Beyond this many chunks of data it is time to think of a flush. -/
def earlyFlushChunks : Nat := 4

/-- Beyond this many chunks of data nothing should be added before a flush. -/
def blockFlushChunks : Nat := 16

/-- Bytes in the chain once `more` are added, as far as a 64-bit count goes. -/
def projected (q : Queue M S) (more : UInt64) : Nat :=
  min (q.occupied + more.toNat) (UInt64.size - 1)

/-- Adding `more` bytes would exceed `earlyFlushChunks` chunks of data. -/
def flushesEarly (q : Queue M S) (more : UInt64) : Bool :=
  earlyFlushChunks * Chunk.capacity < q.projected more

/-- Adding `more` bytes would exceed `blockFlushChunks` chunks of data. -/
def flushBlocks (q : Queue M S) (more : UInt64) : Bool :=
  blockFlushChunks * Chunk.capacity < q.projected more

/-! ### Messages -/

section Messages

variable [Supplier M]

/-- Drops the bytes of the open message. Chunks left empty go back to the supplier, in order. The
rollback is counted if it dropped anything. -/
def rollback (q : Queue M S) : Queue M S :=
  match q.cursor with
  | none => q
  | some first =>
    let touched := q.chain.drop first
    let dropped := (Chain.uncommitted touched).length
    { q with
      supply := (Chain.emptied touched).foldl Supplier.reclaim q.supply
      chain := q.chain.take first ++ Chain.rollback touched
      cursor := none
      occupied := q.occupied - dropped
      counters := q.counters.countRollback dropped }

theorem rollback_of_cursor_eq_none {q : Queue M S} (h : q.cursor = none) : q.rollback = q := by
  rw [rollback, h]

@[simp] theorem cursor_rollback (q : Queue M S) : q.rollback.cursor = none := by
  cases h : q.cursor <;> simp [rollback, h]

/-- Opens a message at the end of the chain; a message still open is dropped first. On an empty
chain there is no chunk to point at, and the first write sets the cursor. -/
def startMessage (q : Queue M S) : Queue M S :=
  let q := q.rollback
  { q with cursor := if q.chain.isEmpty then none else some (q.chain.length - 1) }

/-- Gives every chunk back to the supplier and forgets the open message. -/
def clear (q : Queue M S) : Queue M S :=
  { q with
    supply := q.chain.foldl Supplier.reclaim q.supply
    chain := []
    cursor := none
    occupied := 0 }

/-- Ends the life of the queue: its chunks go back to the supplier, and supplier and sink remain. -/
def close (q : Queue M S) : M × S :=
  let q := q.clear
  (q.supply, q.sink)

end Messages

/-- Makes the bytes of the open message permanent. -/
def commit (q : Queue M S) : Queue M S :=
  match q.cursor with
  | none => q
  | some first =>
    { q with
      chain := q.chain.take first ++ Chain.commit (q.chain.drop first)
      cursor := none
      counters := q.counters.countCommit }

@[simp] theorem cursor_commit (q : Queue M S) : q.commit.cursor = none := by
  cases h : q.cursor <;> simp [commit, h]

/-- A commit changes no byte. -/
@[simp] theorem bytes_commit (q : Queue M S) : q.commit.bytes = q.bytes := by
  cases h : q.cursor with
  | none => simp [commit, h]
  | some first =>
    simp only [commit, h, bytes, Chain.bytes_append, Chain.bytes_commit]
    rw [← Chain.bytes_append, List.take_append_drop]

end Queue

end WireQueue
