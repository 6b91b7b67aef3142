import WireQueue.Queue.Basic
import WireQueue.Request

/-! # Writing to the queue

Everything is written to the end of the chain, in units that no chunk border cuts: a number, a
header, one element of an array. `place` adds one unit, to the last chunk if it has room and to a
new one otherwise. `spread` adds an array: it fills up the last chunk and goes on in new ones.

A write may run out of chunks on its way. What is stored by then stays, as part of the open message,
so an `Attempt` gives back a queue whether or not it succeeds. -/

namespace WireQueue

/-- A write: a queue is left in any case, besides success or the fault that stopped the write. -/
abbrev Attempt (M S : Type) : Type := Queue M S → Except Fault Unit × Queue M S

namespace Attempt

variable {M S : Type}

/-- Writes nothing. -/
def done : Attempt M S := fun q => (.ok (), q)

/-- Writes nothing, and reports a fault. -/
def fail (fault : Fault) : Attempt M S := fun q => (.error fault, q)

/-- One write after the other; the second is left out if the first one fails. -/
def andThen (first second : Attempt M S) : Attempt M S := fun q =>
  match first q with
  | (.ok (), q) => second q
  | (.error fault, q) => (.error fault, q)

/-- Changes the counters after a successful write. -/
def counting (write : Attempt M S) (count : Counters → Counters) : Attempt M S :=
  write.andThen fun q => (.ok (), { q with counters := count q.counters })

@[simp] theorem done_andThen (next : Attempt M S) : done.andThen next = next := rfl

@[simp] theorem fail_andThen (fault : Fault) (next : Attempt M S) :
    (fail fault).andThen next = fail fault := rfl

@[simp] theorem andThen_done (write : Attempt M S) : write.andThen done = write := by
  funext q
  simp only [andThen]
  split
  · rename_i h
    exact h.symm
  · rename_i h
    exact h.symm

theorem andThen_assoc (first second third : Attempt M S) :
    (first.andThen second).andThen third = first.andThen (second.andThen third) := by
  funext q
  simp only [andThen]
  cases first q with
  | mk outcome rest => cases outcome <;> rfl

end Attempt

namespace Queue

variable {M S : Type}

/-! ### The end of the chain -/

/-- Replaces the last chunk by one that holds `added` more bytes, all of the open message. -/
def replaceTail (tail : Chunk) (added : Nat) (q : Queue M S) : Queue M S :=
  { q with
    chain := q.chain.replaceLast tail
    cursor := q.cursor.or (some (q.chain.length - 1))
    occupied := q.occupied + added }

@[simp] theorem getLast?_replaceTail (tail : Chunk) (added : Nat) (q : Queue M S) :
    (q.replaceTail tail added).chain.getLast? = some tail := by
  simp [replaceTail, Chain.replaceLast]

/-- Two changes of the last chunk are one. -/
theorem replaceTail_replaceTail (q : Queue M S) (tail tail' : Chunk) (added added' : Nat) :
    (q.replaceTail tail added).replaceTail tail' added' = q.replaceTail tail' (added + added') := by
  simp [replaceTail, Chain.replaceLast, Nat.add_assoc]

variable [Supplier M]

/-- Adds a chunk to the chain: one from the supplier, wiped, with what `fill` puts into it. -/
def link (fill : Chunk → Chunk) : Attempt M S := fun q =>
  match Supplier.acquire q.supply with
  | (.error fault, supply) => (.error fault, { q with supply })
  | (.ok supplied, supply) =>
    let chunk := fill supplied.reset
    (.ok (),
      { q with
        supply
        chain := q.chain ++ [chunk]
        cursor := q.cursor.or (some q.chain.length)
        occupied := q.occupied + chunk.length
        counters := q.counters.countAcquired })

/-- The fault of the supplier is that of the write. -/
theorem link_of_refused {q : Queue M S} {fault : Fault} {supply : M}
    (h : Supplier.acquire q.supply = (.error fault, supply)) (fill : Chunk → Chunk) :
    q.link fill = (.error fault, { q with supply }) := by
  simp only [link, h]

/-- Whatever the supplied chunk holds, the chain grows by what `fill` makes of an empty one. -/
theorem link_of_supplied {q : Queue M S} {supplied : Chunk} {supply : M}
    (h : Supplier.acquire q.supply = (.ok supplied, supply)) (fill : Chunk → Chunk) :
    q.link fill =
      (.ok (),
        { q with
          supply
          chain := q.chain ++ [fill .empty]
          cursor := q.cursor.or (some q.chain.length)
          occupied := q.occupied + (fill .empty).length
          counters := q.counters.countAcquired }) := by
  simp only [link, h, Chunk.reset_eq_empty]

/-! ### Units and arrays -/

/-- Adds one unit, uncut: to the last chunk if it has room, else to a new chunk. -/
def place (unit : List UInt8) : Attempt M S := fun q =>
  match q.chain.getLast?.bind (Chunk.push? unit) with
  | some tail => (.ok (), q.replaceTail tail unit.length)
  | none => q.link (Chunk.append unit)

section Arrays

variable {α : Type} [Element α]

/-- Adds the values in new chunks, as many in each as it accepts. -/
def spill (values : List α) : Attempt M S :=
  if h : values = [] then .done
  else
    (link (Chunk.fill values)).andThen
      (spill (values.drop (Chunk.empty.accepts values)))
termination_by values.length
decreasing_by
  have haccepts := Chunk.accepts_empty_pos h
  have hlength := List.length_pos_iff.mpr h
  rw [List.length_drop]
  omega

@[simp] theorem spill_nil : (spill ([] : List α) : Attempt M S) = .done := by
  rw [spill, dif_pos rfl]

/-- The first new chunk takes what an empty chunk accepts, and further chunks the rest. -/
theorem spill_of_ne_nil {values : List α} (h : values ≠ []) :
    (spill values : Attempt M S) =
      (link (Chunk.fill values)).andThen (spill (values.drop (Chunk.empty.accepts values))) := by
  rw [spill, dif_neg h]

/-- Adds the values in order: as many as the last chunk accepts there, the rest in new chunks. -/
def spread (values : List α) : Attempt M S := fun q =>
  match q.chain.getLast? with
  | none => q.spill values
  | some tail =>
    let accepted := tail.accepts values
    if accepted = 0 then q.spill values
    else
      (q.replaceTail (tail.fill values) (accepted * Element.width α)).spill
        (values.drop accepted)

/-- Adds the first `needed` of the values, or nothing if there are fewer. -/
def spreadLeading (values : List α) (needed : Nat) : Attempt M S :=
  match leading values needed with
  | .ok values => spread values
  | .error fault => .fail fault

end Arrays

/-! ### What callers write -/

/-- Adds one number. -/
def putScalar {α : Type} [Element α] (value : α) : Attempt M S := place (Element.encode value)

/-- Adds bytes as they are. -/
def putBytes (bytes : List UInt8) : Attempt M S := spread bytes

/-- Adds the first `count` elements of the payload. A string element is a full slot, so a text
shorter than that is not enough for one. -/
def putElements (payload : Payload) (count : Nat) : Attempt M S :=
  match payload with
  | .string bytes => spreadLeading bytes (count * stringSize)
  | .short values => spreadLeading values count
  | .enum values => spreadLeading values count
  | .float values => spreadLeading values count
  | .char bytes => spreadLeading bytes count
  | .long values => spreadLeading values count
  | .double values => spreadLeading values count

/-- Adds `count` elements of the payload, which must be able to supply them as the given type. -/
def putValues (type : DataType) (payload : Payload) (count : UInt32) : Attempt M S :=
  match payload.check type count.toNat with
  | .ok () => putElements payload count.toNat
  | .error fault => .fail fault

/-- Adds a request header, in one piece. -/
def putHeader (header : Header) (extendedOk : Bool) : Attempt M S :=
  match header.form extendedOk with
  | .error fault => .fail fault
  | .ok form =>
    (place (header.encodeAs form)).counting (Counters.countHeader (form == .extended))

/-- Adds the text of a single string and its terminator. -/
def putText (text : List UInt8) : Attempt M S :=
  (spread text).andThen (putScalar (0 : UInt8))

/-- Adds zeros. -/
def putPadding (count : Nat) : Attempt M S := spread (List.replicate count (0 : UInt8))

/-- Adds a whole request: header, body and padding. A request that is refused adds nothing, since
its layout and the form of its header are settled first. -/
def putRequest (request : Request) (extendedOk : Bool) : Attempt M S :=
  match request.layout with
  | .error fault => .fail fault
  | .ok layout =>
    let body := match layout.text? with
      | some text => putText text
      | none => putElements request.payload request.count.toNat
    (putHeader layout.header extendedOk).andThen (body.andThen (putPadding layout.padding))

end Queue

end WireQueue
