import WireQueue.Chunk
import WireQueue.Fault

/-! # Suppliers

A supplier hands out chunks and takes them back. It is any state with these two operations: a
request for a chunk may fail at any time and with any fault, and a chunk handed out need not be
empty, since whoever asks for it wipes it first.

A queue passes the fault on as it is, and does not look at it. A supplier should have no other
reason to fail than that it has no chunk, but nothing holds it to that. Results that tell a lack of
chunks from the faults of the queue therefore ask for `Supplier.OnlyExhausts`. -/

namespace WireQueue

class Supplier (M : Type) where
  /-- Hands out a chunk, or says why not. The state may change either way. -/
  acquire : M → Except Fault Chunk × M
  /-- Takes a chunk back. -/
  reclaim : M → Chunk → M

namespace Supplier

variable {M : Type} [Supplier M]

/-- The supplier came into this state when it refused a chunk with this fault. -/
def RefusedWith (fault : Fault) (supply : M) : Prop :=
  ∃ before, acquire before = (.error fault, supply)

variable (M)

/-- There is a state in which the supplier refuses a chunk with this fault. -/
def Refuses (fault : Fault) : Prop := ∃ supply : M, RefusedWith fault supply

/-- Whenever the supplier refuses a chunk, it does so for a lack of chunks. -/
def OnlyExhausts : Prop := ∀ fault, Refuses M fault → ∃ shortage, fault = .exhausted shortage

variable {M}

theorem RefusedWith.refuses {fault : Fault} {supply : M} (h : RefusedWith fault supply) :
    Refuses M fault := ⟨supply, h⟩

theorem OnlyExhausts.not_refuses (h : OnlyExhausts M) {fault : Fault}
    (hfault : ∀ shortage, fault ≠ .exhausted shortage) : ¬ Refuses M fault := by
  intro hrefuses
  obtain ⟨shortage, heq⟩ := h fault hrefuses
  exact hfault shortage heq

end Supplier

end WireQueue
