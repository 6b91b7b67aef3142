import WireQueue.Supplier

/-! # The shelf

A supplier that puts returned chunks on a stack as they are, bytes included, and hands the topmost
out again. It refuses the calls that its plan names, so that a caller can be led into every
failure. -/

namespace WireQueue

/-- Which calls are refused, counted from zero, and with what words. -/
structure RefusalPlan where
  calls : List Nat := []
  /-- All calls from this one on. -/
  from? : Option Nat := none
  shortage : Shortage := ⟨0, 0⟩

def RefusalPlan.refuses (plan : RefusalPlan) (call : Nat) : Bool :=
  plan.calls.contains call || plan.from?.any (· ≤ call)

structure Shelf where
  plan : RefusalPlan := {}
  /-- Calls so far, refused ones included. -/
  calls : Nat := 0
  /-- Returned chunks, the last one first. -/
  chunks : List Chunk := []

namespace Shelf

def acquire (shelf : Shelf) : Except Fault Chunk × Shelf :=
  let next := { shelf with calls := shelf.calls + 1 }
  if shelf.plan.refuses shelf.calls then (.error (.exhausted shelf.plan.shortage), next)
  else (.ok (shelf.chunks.headD .empty), { next with chunks := shelf.chunks.tail })

def reclaim (shelf : Shelf) (chunk : Chunk) : Shelf :=
  { shelf with chunks := chunk :: shelf.chunks }

instance : Supplier Shelf where
  acquire := acquire
  reclaim := reclaim

/-- A shelf fails in the words of its plan only. -/
theorem onlyExhausts : Supplier.OnlyExhausts Shelf := by
  rintro fault ⟨_, shelf, hacquire⟩
  change shelf.acquire = _ at hacquire
  unfold acquire at hacquire
  dsimp only at hacquire
  split at hacquire
  · cases hacquire
    exact ⟨shelf.plan.shortage, rfl⟩
  · cases hacquire

end Shelf

end WireQueue
