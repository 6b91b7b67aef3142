import WireQueue.Queue.Drain
import WireQueue.Queue.Write

/-! # Operations as data

What a caller can ask of a queue, as values, so that a whole run is a list. `Queue.perform` does one
operation, `Queue.run` a list of them; each answer is what the caller gets to see. -/

namespace WireQueue

/-- The operations that write. -/
inductive Write where
  | word16 (value : UInt16)
  | word32 (value : UInt32)
  | real32 (value : Binary32)
  | bytes (bytes : List UInt8)
  | values (type : DataType) (payload : Payload) (count : UInt32)
  | header (header : Header) (extendedOk : Bool)
  | request (request : Request) (extendedOk : Bool)

inductive Operation where
  | startMessage
  | commit
  | clear
  | write (write : Write)
  | pop
  | flush
  | recycle (chunk : Chunk)

inductive Answer where
  | done
  | written (outcome : Except Fault Unit)
  | popped (chunk? : Option Chunk)
  /-- The number of bytes handed to the sink. -/
  | flushed (bytes : Nat)

variable {M S : Type} [Supplier M]

/-- Writes to a queue. -/
def Write.attempt : Write → Attempt M S
  | .word16 value => Queue.putScalar value
  | .word32 value => Queue.putScalar value
  | .real32 value => Queue.putScalar value
  | .bytes added => Queue.putBytes added
  | .values type payload count => Queue.putValues type payload count
  | .header opening extendedOk => Queue.putHeader opening extendedOk
  | .request whole extendedOk => Queue.putRequest whole extendedOk

namespace Queue

variable [Sink S]

def perform (q : Queue M S) : Operation → Answer × Queue M S
  | .startMessage => (.done, q.startMessage)
  | .commit => (.done, q.commit)
  | .clear => (.done, q.clear)
  | .write write =>
    let (outcome, q) := write.attempt q
    (.written outcome, q)
  | .pop =>
    let (chunk?, q) := q.pop
    (.popped chunk?, q)
  | .flush =>
    let (bytes, q) := q.flush
    (.flushed bytes, q)
  | .recycle chunk => (.done, q.recycle chunk)

/-- The queues that a caller can bring about from a new one. Between two operations the caller may
do with supplier and sink as it likes. -/
inductive Reachable : Queue M S → Prop where
  | new (supply : M) (sink : S) : Reachable (Queue.new supply sink)
  | perform {q : Queue M S} (h : Reachable q) (operation : Operation) :
      Reachable (q.perform operation).2
  | exchange {q : Queue M S} (h : Reachable q) (supply : M) (sink : S) :
      Reachable { q with supply, sink }

/-- Performs the operations in order. -/
def run (q : Queue M S) : List Operation → List Answer × Queue M S
  | [] => ([], q)
  | operation :: rest =>
    let (answer, q) := q.perform operation
    let (answers, q) := q.run rest
    (answer :: answers, q)

end Queue

end WireQueue
