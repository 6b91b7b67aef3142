/-! # Counters

What a queue has done since it was made. One function per event says which counters it moves.

A counter is a number without an upper bound, while the 64-bit word that it stands for would
overflow. No run is meant to count as far as `2 ^ 64`, and what is proved of the counters is to be
read for runs that do not. -/

namespace WireQueue

structure Counters where
  /-- Messages made permanent. -/
  messagesCommitted : Nat := 0
  /-- Messages that lost at least one byte to a rollback. -/
  messagesRolledBack : Nat := 0
  bytesRolledBack : Nat := 0
  /-- Request headers written. -/
  requestsEncoded : Nat := 0
  /-- Request headers written in the extended form. -/
  extendedHeaders : Nat := 0
  /-- Chunks obtained from the supplier. -/
  chunksAcquired : Nat := 0
  /-- Chunks taken off the head of the chain. -/
  chunksDrained : Nat := 0
  bytesDrained : Nat := 0
  /-- Drained chunks given back through the queue. -/
  chunksRecycled : Nat := 0
  deriving DecidableEq

namespace Counters

/-- Mean number of bytes in a drained chunk, rounded down. -/
def meanDrained? (counters : Counters) : Option Nat :=
  if counters.chunksDrained = 0 then none
  else some (counters.bytesDrained / counters.chunksDrained)

/-- The counters after a commit. -/
def countCommit (counters : Counters) : Counters :=
  { counters with messagesCommitted := counters.messagesCommitted + 1 }

/-- The counters after a rollback. One that dropped nothing is not counted. -/
def countRollback (dropped : Nat) (counters : Counters) : Counters :=
  if dropped = 0 then counters
  else
    { counters with
      messagesRolledBack := counters.messagesRolledBack + 1
      bytesRolledBack := counters.bytesRolledBack + dropped }

/-- The counters after a header was written. -/
def countHeader (extended : Bool) (counters : Counters) : Counters :=
  { counters with
    requestsEncoded := counters.requestsEncoded + 1
    extendedHeaders := counters.extendedHeaders + extended.toNat }

/-- The counters after the supplier handed out a chunk. -/
def countAcquired (counters : Counters) : Counters :=
  { counters with chunksAcquired := counters.chunksAcquired + 1 }

/-- The counters after a chunk left the chain. -/
def countDrained (bytes : Nat) (counters : Counters) : Counters :=
  { counters with
    chunksDrained := counters.chunksDrained + 1
    bytesDrained := counters.bytesDrained + bytes }

/-- The counters after a drained chunk was given back. -/
def countRecycled (counters : Counters) : Counters :=
  { counters with chunksRecycled := counters.chunksRecycled + 1 }

end Counters

end WireQueue
