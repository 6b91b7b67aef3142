import WireQueue.Sink

/-! # Sinks with a record

Any sink can be given a record of the calls that it sees. It answers them as before, so that a queue
cannot tell, and the record says afterwards what the sink was given and what it gave back. -/

namespace WireQueue

/-- One call to a sink, with its answer. -/
structure Sink.Call where
  given : Chunk
  /-- The chunk that came back, if one did. -/
  returned : Option Chunk
  deriving DecidableEq

/-- A sink and the calls that it has seen, the first one first. -/
structure Recorded (S : Type) where
  sink : S
  calls : List Sink.Call := []

namespace Recorded

variable {S : Type} [Sink S]

def deliver (recorded : Recorded S) (chunk : Chunk) : Option Chunk × Recorded S :=
  let (returned, sink) := Sink.deliver recorded.sink chunk
  (returned, { sink, calls := recorded.calls ++ [{ given := chunk, returned }] })

instance : Sink (Recorded S) where
  deliver := deliver

end Recorded

end WireQueue
