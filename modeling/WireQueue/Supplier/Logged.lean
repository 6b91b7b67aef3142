import WireQueue.Supplier

/-! # Suppliers with a log

Any supplier can be given a log of the calls that it sees. It answers them as before, so that a
queue cannot tell, and the log says afterwards what the queue has asked of it. -/

namespace WireQueue

/-- One call to a supplier, with its outcome. -/
inductive Supplier.Call where
  | granted (chunk : Chunk)
  | refused (fault : Fault)
  | reclaimed (chunk : Chunk)

namespace Supplier.Call

/-- A chunk was handed out. -/
def isGranted : Call → Bool
  | granted _ => true
  | _ => false

/-- A chunk was taken back. -/
def isReclaimed : Call → Bool
  | reclaimed _ => true
  | _ => false

/-- Whether a chunk was handed out to whoever asked for one, and why not. Nothing is said of what
the chunk held. -/
def outcome? : Call → Option (Except Fault Unit)
  | granted _ => some (.ok ())
  | refused fault => some (.error fault)
  | reclaimed _ => none

end Supplier.Call

/-- A supplier and the calls that it has seen, the first one first. -/
structure Logged (M : Type) where
  supplier : M
  calls : List Supplier.Call := []

namespace Logged

variable {M : Type} [Supplier M]

def acquire (logged : Logged M) : Except Fault Chunk × Logged M :=
  match Supplier.acquire logged.supplier with
  | (.ok chunk, supplier) =>
    (.ok chunk, { supplier, calls := logged.calls ++ [.granted chunk] })
  | (.error fault, supplier) =>
    (.error fault, { supplier, calls := logged.calls ++ [.refused fault] })

def reclaim (logged : Logged M) (chunk : Chunk) : Logged M where
  supplier := Supplier.reclaim logged.supplier chunk
  calls := logged.calls ++ [.reclaimed chunk]

instance : Supplier (Logged M) where
  acquire := acquire
  reclaim := reclaim

end Logged

/-- What the calls for a chunk came to, in order. -/
def Logged.outcomes {M : Type} (logged : Logged M) : List (Except Fault Unit) :=
  logged.calls.filterMap Supplier.Call.outcome?

end WireQueue
