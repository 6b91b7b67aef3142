import WireQueue.Chunk

/-! # Sinks

A sink takes chunks that are ready for transmission. The bytes of the chunks it is given, in order,
are the stream on the wire. A sink that is done with a chunk gives it back; one that keeps it
answers for it from then on.

Three sinks: a `Transcript` copies the bytes and gives every chunk back, a `Keeper` keeps every
chunk, and an `Alternating` sink does the one and the other in turn. -/

namespace WireQueue

class Sink (S : Type) where
  /-- Takes a chunk, and gives it back unless it is kept. -/
  deliver : S → Chunk → Option Chunk × S

/-- Copies what it is given. -/
structure Transcript where
  bytes : List UInt8 := []

instance : Sink Transcript where
  deliver transcript chunk := (some chunk, { bytes := transcript.bytes ++ chunk.bytes })

/-- Keeps what it is given, in order of arrival. -/
structure Keeper where
  chunks : List Chunk := []

namespace Keeper

/-- The bytes of all chunks kept. -/
def bytes (keeper : Keeper) : List UInt8 := keeper.chunks.flatMap Chunk.bytes

/-- Hands over the chunks kept, and keeps none of them. -/
def take (keeper : Keeper) : List Chunk × Keeper := (keeper.chunks, {})

instance : Sink Keeper where
  deliver keeper chunk := (none, { chunks := keeper.chunks ++ [chunk] })

end Keeper

/-- Copies the first, third, … chunk it is given and keeps the second, fourth, … one. -/
structure Alternating where
  transcript : Transcript := {}
  keeper : Keeper := {}
  /-- The next chunk is kept. -/
  keepsNext : Bool := false

namespace Alternating

def deliver (sink : Alternating) (chunk : Chunk) : Option Chunk × Alternating :=
  if sink.keepsNext then
    let (returned, keeper) := Sink.deliver sink.keeper chunk
    (returned, { sink with keeper, keepsNext := false })
  else
    let (returned, transcript) := Sink.deliver sink.transcript chunk
    (returned, { sink with transcript, keepsNext := true })

instance : Sink Alternating where
  deliver := deliver

end Alternating

end WireQueue
