import WireQueue.Buffer
import WireQueue.Operation

/-! # The queue in place

The queue once more, step by step and in place, the way a machine goes through it: buffers with a
mark, a loop wherever something is done to several of them, and arithmetic and slices that have to
stay in bounds. `none` is a program that has stopped at a step out of bounds, or that would repeat a
step forever without getting any further.

The steps are in the order of the program, also where the order makes no difference to the result.
What only grows, a number of bytes or of events, is a plain number. A supplier and a sink deal in
chunks, as ever. -/

namespace WireQueue

/-- A queue over suppliers `M` and sinks `S`, of buffers. -/
structure BufferQueue (M S : Type) where
  supply : M
  sink : S
  /-- The buffers that hold bytes, in transmission order. -/
  buffers : List Buffer := []
  /-- The first buffer that may hold uncommitted bytes, if a message is open. -/
  cursor : Option Nat := none
  /-- Bytes in the buffers. -/
  occupied : Nat := 0
  counters : Counters := {}

namespace BufferQueue

variable {M S : Type}

/-- The empty queue over a supplier and a sink. -/
def new (supply : M) (sink : S) : BufferQueue M S := { supply, sink }

/-- The queue with its chunks in buffers. -/
def ofQueue (q : Queue M S) : BufferQueue M S where
  supply := q.supply
  sink := q.sink
  buffers := q.chain.map Buffer.ofChunk
  cursor := q.cursor
  occupied := q.occupied
  counters := q.counters

/-! ### The last buffer -/

/-- Sets the cursor to the last buffer, unless a message is open. -/
def markLast? (q : BufferQueue M S) : Option (BufferQueue M S) := do
  let last ← Checked.sub? q.buffers.length 1
  return { q with cursor := q.cursor.or (some last) }

/-- Adds a buffer at the end. -/
def link? (buffer : Buffer) (q : BufferQueue M S) : Option (BufferQueue M S) :=
  markLast? { q with buffers := q.buffers ++ [buffer] }

/-- Does something to the last buffer and gives its answer, or `otherwise` if there is none. -/
def changeLast? {α : Type} (change : Buffer → Option (α × Buffer)) (otherwise : α)
    (q : BufferQueue M S) : Option (α × BufferQueue M S) :=
  match q.buffers.getLast? with
  | none => some (otherwise, q)
  | some last => do
    let (answer, last) ← change last
    return (answer, { q with buffers := q.buffers.dropLast ++ [last] })

/-! ### Messages -/

def commit? (q : BufferQueue M S) : Option (BufferQueue M S) :=
  match q.cursor with
  | none => some q
  | some first => do
    let touched ← Checked.back? q.buffers first
    return { q with
      buffers := q.buffers.take first ++ touched.map Buffer.commit
      cursor := none
      counters := q.counters.countCommit }

variable [Supplier M]

/-- Truncates one buffer after the other. A buffer left empty is taken out and given back at once.
Gives the number of bytes dropped, and the buffers that remain. -/
def sweep? : List Buffer → M → Option (Nat × List Buffer × M)
  | [], supply => some (0, [], supply)
  | buffer :: rest, supply => do
    let (dropped, buffer) ← buffer.truncate?
    if buffer.bytes.isEmpty then
      let (more, rest, supply) ← sweep? rest (Supplier.reclaim supply buffer.toChunk)
      return (dropped + more, rest, supply)
    else
      let (more, rest, supply) ← sweep? rest supply
      return (dropped + more, buffer :: rest, supply)

def rollback? (q : BufferQueue M S) : Option (BufferQueue M S) :=
  match q.cursor with
  | none => some q
  | some first => do
    let (dropped, swept, supply) ← sweep? (q.buffers.drop first) q.supply
    let occupied ←
      (if dropped = 0 then some q.occupied else Checked.sub? q.occupied dropped : Option Nat)
    return { q with
      supply
      buffers := q.buffers.take first ++ swept
      cursor := none
      occupied
      counters := q.counters.countRollback dropped }

/-- Without a buffer there is no index before their number, and no cursor. -/
def startMessage? (q : BufferQueue M S) : Option (BufferQueue M S) := do
  let q ← (if q.cursor.isSome then q.rollback? else some q : Option (BufferQueue M S))
  return { q with cursor := Checked.sub? q.buffers.length 1 }

def clear (q : BufferQueue M S) : BufferQueue M S :=
  { q with
    supply := q.buffers.foldl (fun supply buffer => Supplier.reclaim supply buffer.toChunk) q.supply
    buffers := []
    cursor := none
    occupied := 0 }

/-! ### Writing -/

/-- A write: a queue is left, besides success or a fault, if no step is out of bounds. -/
abbrev Attempt (M S : Type) : Type :=
  BufferQueue M S → Option (Except Fault Unit × BufferQueue M S)

namespace Attempt

/-- Writes nothing, and reports a fault. -/
def fail (fault : Fault) : Attempt M S := fun q => some (.error fault, q)

/-- One write after the other; the second is left out if the first one fails. -/
def andThen (first second : Attempt M S) : Attempt M S := fun q => do
  let (outcome, q) ← first q
  match outcome with
  | .ok () => second q
  | .error fault => return (.error fault, q)

end Attempt

/-- Asks the supplier for a buffer, and empties it. -/
def allocate (q : BufferQueue M S) : Except Fault Buffer × BufferQueue M S :=
  match Supplier.acquire q.supply with
  | (.error fault, supply) => (.error fault, { q with supply })
  | (.ok supplied, supply) =>
    (.ok (Buffer.ofChunk supplied).reset,
      { q with supply, counters := q.counters.countAcquired })

/-- Goes on with a new buffer, if there is one to be had. -/
def withNew (next : Buffer → Attempt M S) : Attempt M S := fun q =>
  match q.allocate with
  | (.error fault, q) => some (.error fault, q)
  | (.ok buffer, q) => next buffer q

section Arrays

variable {α : Type} [Element α]

/-- Adds one number. A new buffer is expected to accept it. -/
def putScalar? (value : α) : Attempt M S := fun q => do
  let (fitted, q) ← q.changeLast? (Buffer.push? value) false
  if fitted then
    let q ← q.markLast?
    return (.ok (), { q with occupied := q.occupied + Element.width α })
  else
    let add (buffer : Buffer) : Attempt M S := fun q => do
      let (accepted, buffer) ← buffer.push? value
      Checked.require? accepted
      let q ← q.link? buffer
      return (.ok (), { q with occupied := q.occupied + Element.width α })
    withNew add q

/-- Adds the values from index `copied` on in new buffers. A buffer that accepts none of them would
be followed by others like it forever. -/
def spill? (values : List α) (copied : Nat) : Attempt M S := fun q =>
  if copied < values.length then
    let add (buffer : Buffer) : Attempt M S := fun q => do
      let rest ← Checked.back? values copied
      let (accepted, buffer) ← buffer.pushSlice? rest
      if 0 < accepted then
        let q ← link? buffer { q with occupied := q.occupied + accepted * Element.width α }
        spill? values (copied + accepted) q
      else none
    withNew add q
  else some (.ok (), q)
termination_by values.length - copied

/-- Adds the values in order, first to the last buffer and then to new ones. -/
def spread? (values : List α) : Attempt M S := fun q => do
  let (copied, q) ← q.changeLast? (Buffer.pushSlice? values) 0
  if 0 < copied then
    let q ← q.markLast?
    spill? values copied { q with occupied := q.occupied + copied * Element.width α }
  else spill? values copied q

/-- Adds the first `needed` of the values, or nothing if there are fewer. -/
def spreadLeading? (values : List α) (needed : Nat) : Attempt M S :=
  match leading values needed with
  | .ok values => spread? values
  | .error fault => .fail fault

end Arrays

/-- Adds the first `count` elements of the payload. -/
def putElements? (payload : Payload) (count : Nat) : Attempt M S := fun q =>
  match payload with
  | .string bytes => do spreadLeading? bytes (← Checked.mul? count stringSize) q
  | .short values => spreadLeading? values count q
  | .enum values => spreadLeading? values count q
  | .float values => spreadLeading? values count q
  | .char bytes => spreadLeading? bytes count q
  | .long values => spreadLeading? values count q
  | .double values => spreadLeading? values count q

/-- Adds `count` elements of the payload, which must be able to supply them as the given type. -/
def putValues? (type : DataType) (payload : Payload) (count : UInt32) : Attempt M S :=
  match payload.check type count.toNat with
  | .ok () => putElements? payload count.toNat
  | .error fault => .fail fault

/-- Writes the header at the end of the last buffer, which has the room. -/
def writeHeader? (header : Header) (form : Header.Form) : Attempt M S := fun q => do
  let write (last : Buffer) : Option (Unit × Buffer) :=
    some ((), last.append (header.encodeAs form))
  let ((), q) ← q.changeLast? write ()
  let q ← q.markLast?
  return (.ok (),
    { q with
      occupied := q.occupied + form.length
      counters := q.counters.countHeader (form == .extended) })

/-- Adds a request header, in one piece. -/
def putHeader? (header : Header) (extendedOk : Bool) : Attempt M S := fun q =>
  match header.form extendedOk with
  | .error fault => some (.error fault, q)
  | .ok form => do
    let (fits, q) ← q.changeLast? (Buffer.hasRoom? form.length) false
    if fits then writeHeader? header form q
    else
      let add (buffer : Buffer) : Attempt M S := fun q => do
        writeHeader? header form (← q.link? buffer)
      withNew add q

end BufferQueue

namespace Request

/-- The text of a single string, as a slice of the payload up to the first NUL or its end. -/
def textSlice? (request : Request) (type : DataType) :
    Option (Except Fault (Option (List UInt8))) :=
  match request.payload with
  | .string bytes =>
    if request.count = 1 ∧ type = .string then
      let stop := bytes.findIdx (· == 0)
      if stringSize < stop + 1 then
        some (.error (.tooLarge .stringLength (stop + 1) stringSize))
      else do
        let text ← Checked.front? bytes stop
        return .ok (some text)
    else some (.ok none)
  | _ => some (.ok none)

/-- Bytes of the body, before padding. -/
def bodySize? (request : Request) (type : DataType) : Option (List UInt8) → Option UInt64
  | some text => some (UInt64.ofNat (text.length + 1))
  | none => Checked.mulWord? request.count.toUInt64 (UInt64.ofNat type.kind.size)

end Request

/-- Rounds `size` up, if the sum on the way does not wrap. -/
def alignUp? (size : UInt64) : Option UInt64 := do
  let sum ← Checked.addWord? size (payloadAlignment - 1)
  return sum &&& ~~~(payloadAlignment - 1)

namespace BufferQueue

variable {M S : Type} [Supplier M]

/-- The text of a single string and its terminator, or the elements of the payload. -/
def putBody? (request : Request) : Option (List UInt8) → Attempt M S
  | some text => (spread? text).andThen (putScalar? (0 : UInt8))
  | none => putElements? request.payload request.count.toNat

/-- The zeros that padding is taken from. -/
def zeros : List UInt8 := List.replicate payloadAlignment.toNat 0

/-- Adds zeros, of which there are fewer than eight. -/
def putPadding? (size padded : UInt64) : Attempt M S := fun q => do
  let padding ← Checked.subWord? padded size
  Checked.require? (padding < payloadAlignment)
  if 0 < padding.toNat then spread? (← Checked.front? zeros padding.toNat) q
  else return (.ok (), q)

/-- Adds a request whose type and text are known. -/
def assemble? (request : Request) (type : DataType) (text? : Option (List UInt8))
    (extendedOk : Bool) : Attempt M S := fun q => do
  let size ← request.bodySize? type text?
  let padded ← alignUp? size
  if Request.maxPayloadSize < padded.toNat then
    return (.error (.tooLarge .payloadSize padded.toNat Request.maxPayloadSize), q)
  else
    let header : Header :=
      { command := request.command
        payloadSize := padded.toUInt32
        dataType := type.code
        count := request.count
        channel := request.channel
        parameter := request.parameter }
    (putHeader? header extendedOk).andThen
      ((putBody? request text?).andThen (putPadding? size padded)) q

/-- Adds a whole request: header, body and padding. -/
def putRequest? (request : Request) (extendedOk : Bool) : Attempt M S := fun q =>
  match DataType.ofCode request.typeCode with
  | .error fault => some (.error fault, q)
  | .ok type =>
    match request.payload.check type request.count.toNat with
    | .error fault => some (.error fault, q)
    | .ok () => do
      match ← request.textSlice? type with
      | .error fault => return (.error fault, q)
      | .ok text? => assemble? request type text? extendedOk q

def attempt? : Write → Attempt M S
  | .word16 value => putScalar? value
  | .word32 value => putScalar? value
  | .real32 value => putScalar? value
  | .bytes added => spread? added
  | .values type payload count => putValues? type payload count
  | .header opening extendedOk => putHeader? opening extendedOk
  | .request whole extendedOk => putRequest? whole extendedOk

/-! ### Draining -/

/-- Takes the first buffer off, once the open message is dropped. -/
def pop? (q : BufferQueue M S) : Option (Option Buffer × BufferQueue M S) := do
  let q ← q.rollback?
  match q.buffers with
  | [] => return (none, q)
  | buffer :: rest =>
    let occupied ← Checked.sub? q.occupied buffer.bytes.length
    return (some buffer,
      { q with
        buffers := rest
        occupied
        counters := q.counters.countDrained buffer.bytes.length })

def recycle (chunk : Chunk) (q : BufferQueue M S) : BufferQueue M S :=
  { q with
    supply := Supplier.reclaim q.supply chunk
    counters := q.counters.countRecycled }

/-! Every pass of a flush takes a buffer off, which is why it ends. -/

theorem length_of_sweep? {buffers swept : List Buffer} {supply supply' : M} {dropped : Nat}
    (h : sweep? buffers supply = some (dropped, swept, supply')) :
    swept.length ≤ buffers.length := by
  induction buffers generalizing supply dropped swept with
  | nil =>
    cases h
    exact Nat.le_refl _
  | cons buffer rest ih =>
    simp only [sweep?, Option.bind_eq_bind, Option.bind_eq_some_iff] at h
    obtain ⟨⟨first, truncated⟩, -, h⟩ := h
    split at h
    · obtain ⟨⟨more, rest', supply''⟩, hrest, h⟩ := Option.bind_eq_some_iff.mp h
      cases h
      exact Nat.le_succ_of_le (ih hrest)
    · obtain ⟨⟨more, rest', supply''⟩, hrest, h⟩ := Option.bind_eq_some_iff.mp h
      cases h
      exact Nat.succ_le_succ (ih hrest)

theorem length_of_rollback? {q q' : BufferQueue M S} (h : q.rollback? = some q') :
    q'.buffers.length ≤ q.buffers.length := by
  unfold rollback? at h
  split at h
  · cases h
    exact Nat.le_refl _
  · next first _ =>
    obtain ⟨⟨dropped, swept, supply⟩, hsweep, h⟩ := Option.bind_eq_some_iff.mp h
    obtain ⟨occupied, -, h⟩ := Option.bind_eq_some_iff.mp h
    cases h
    have hswept := length_of_sweep? hsweep
    show (q.buffers.take first ++ swept).length ≤ q.buffers.length
    rw [List.length_drop] at hswept
    rw [List.length_append, List.length_take]
    omega

theorem length_of_pop? {q next : BufferQueue M S} {buffer : Buffer}
    (h : q.pop? = some (some buffer, next)) : next.buffers.length < q.buffers.length := by
  obtain ⟨q', hrollback, h⟩ := Option.bind_eq_some_iff.mp h
  have hlength := length_of_rollback? hrollback
  split at h
  · cases h
  · next hbuffers =>
    obtain ⟨occupied, -, h⟩ := Option.bind_eq_some_iff.mp h
    cases h
    rw [hbuffers] at hlength
    exact hlength

section Flush

variable [Sink S]

/-- Gives a buffer to the sink, and recycles it if it comes back. -/
def dispatch (q : BufferQueue M S) (buffer : Buffer) : BufferQueue M S :=
  let (returned, sink) := Sink.deliver q.sink buffer.toChunk
  match returned with
  | none => { q with sink }
  | some returned => { q with sink }.recycle returned

theorem buffers_dispatch (q : BufferQueue M S) (buffer : Buffer) :
    (q.dispatch buffer).buffers = q.buffers := by
  simp only [dispatch]
  split <;> rfl

/-- Pops buffers and gives them to the sink until there is none. Gives the number of bytes. -/
def flush? (q : BufferQueue M S) : Option (Nat × BufferQueue M S) :=
  match _h : q.pop? with
  | none => none
  | some (none, q) => some (0, q)
  | some (some buffer, next) => do
    let (bytes, q) ← (next.dispatch buffer).flush?
    return (buffer.bytes.length + bytes, q)
termination_by q.buffers.length
decreasing_by
  rw [buffers_dispatch]
  exact length_of_pop? _h

end Flush

/-! ### Operations -/

variable [Sink S]

def perform? (q : BufferQueue M S) : Operation → Option (Answer × BufferQueue M S)
  | .startMessage => do return (.done, ← q.startMessage?)
  | .commit => do return (.done, ← q.commit?)
  | .clear => some (.done, q.clear)
  | .write write => do
    let (outcome, q) ← attempt? write q
    return (.written outcome, q)
  | .pop => do
    let (buffer?, q) ← q.pop?
    return (.popped (buffer?.map Buffer.toChunk), q)
  | .flush => do
    let (bytes, q) ← q.flush?
    return (.flushed bytes, q)
  | .recycle chunk => some (.done, q.recycle chunk)

/-- Performs the operations in order. -/
def run? (q : BufferQueue M S) : List Operation → Option (List Answer × BufferQueue M S)
  | [] => some ([], q)
  | operation :: rest => do
    let (answer, q) ← q.perform? operation
    let (answers, q) ← q.run? rest
    return (answer :: answers, q)

/-- The queues that a caller can bring about from a new one, with whatever is done to supplier and
sink in between. -/
inductive Reachable : BufferQueue M S → Prop where
  | new (supply : M) (sink : S) : Reachable (BufferQueue.new supply sink)
  | perform {q q' : BufferQueue M S} {operation : Operation} {answer : Answer} (h : Reachable q)
      (hperform : q.perform? operation = some (answer, q')) : Reachable q'
  | exchange {q : BufferQueue M S} (h : Reachable q) (supply : M) (sink : S) :
      Reachable { q with supply, sink }

end BufferQueue

end WireQueue
