import WireQueue.Supplier

/-! # The pool

A supplier that keeps returned chunks for reuse, wiped, up to a number of its own, and may refuse
to have more than a certain number of chunks in circulation. -/

namespace WireQueue

structure Pool where
  /-- The most returned chunks that are kept. -/
  maxPooled : Nat
  /-- The most chunks in circulation, if there is a limit. -/
  maxOutstanding : Option Nat
  /-- Returned chunks, the last one first. -/
  free : List Chunk := []
  /-- Chunks handed out and not given back. -/
  outstanding : Nat := 0

namespace Pool

/-- Keeps up to 64 chunks and refuses none. -/
def standard : Pool := { maxPooled := 64, maxOutstanding := none }

/-- The refusal that is due when the limit is reached. -/
def shortage? (pool : Pool) : Option Shortage :=
  match pool.maxOutstanding with
  | none => none
  | some limit => if limit ≤ pool.outstanding then some ⟨pool.outstanding, limit⟩ else none

def acquire (pool : Pool) : Except Fault Chunk × Pool :=
  match pool.shortage? with
  | some shortage => (.error (.exhausted shortage), pool)
  | none =>
    (.ok (pool.free.headD .empty),
      { pool with free := pool.free.tail, outstanding := pool.outstanding + 1 })

/-- Keeps the chunk, wiped, if there is space for it. More chunks may come back than went out: the
count stops at zero. -/
def reclaim (pool : Pool) (chunk : Chunk) : Pool :=
  let free := if pool.free.length < pool.maxPooled then chunk.reset :: pool.free else pool.free
  { pool with free, outstanding := pool.outstanding - 1 }

instance : Supplier Pool where
  acquire := acquire
  reclaim := reclaim

/-- A pool fails at its limit only. -/
theorem onlyExhausts : Supplier.OnlyExhausts Pool := by
  rintro fault ⟨_, pool, hacquire⟩
  change pool.acquire = _ at hacquire
  unfold acquire at hacquire
  split at hacquire
  · next shortage _ =>
    cases hacquire
    exact ⟨shortage, rfl⟩
  · cases hacquire

end Pool

end WireQueue
