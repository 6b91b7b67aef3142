import WireQueue.Encoding

/-! # Units laid down on a chain

A write lays its units down behind what the chain holds: each unit in the last chunk if there is
room for the whole of it, and otherwise in a further chunk. `Chain.Laid` is the record of that, with
chunks in view and neither supplier nor counters. Whatever holds of one unit laid down holds of all
of them by induction on the record.

* `Chain.Laid.committed`, `Chain.Laid.uncommitted` — all that is laid down belongs to the open
  message.
* `Chain.Laid.rollback`, `Chain.Laid.emptied` — a rollback would take exactly that away, and leave
  the further chunks empty. -/

namespace WireQueue

/-- The bytes of a list of units, one after the other. -/
def unitBytes (units : List WireUnit) : List UInt8 := units.flatMap WireUnit.bytes

@[simp] theorem unitBytes_nil : unitBytes [] = [] := rfl

@[simp] theorem unitBytes_cons (unit : WireUnit) (units : List WireUnit) :
    unitBytes (unit :: units) = unit.bytes ++ unitBytes units := rfl

@[simp] theorem unitBytes_append (first second : List WireUnit) :
    unitBytes (first ++ second) = unitBytes first ++ unitBytes second :=
  List.flatMap_append

namespace Chain

/-- `chain.Laid units fresh chain'`: the units were laid down behind `chain`, in order, which took
`fresh` further chunks and led to `chain'`. -/
inductive Laid (chain : Chain) : List WireUnit → Nat → Chain → Prop where
  | refl : Laid chain [] 0 chain
  /-- The last chunk has room for the next unit. -/
  | inTail {units : List WireUnit} {unit : WireUnit} {fresh : Nat} {front : Chain} {last : Chunk}
      (h : Laid chain units fresh (front ++ [last])) (hroom : unit.bytes.length ≤ last.room) :
      Laid chain (units ++ [unit]) fresh (front ++ [last.append unit.bytes])
  /-- The last chunk has no room for the next unit, or there is no chunk yet. -/
  | inNewChunk {units : List WireUnit} {unit : WireUnit} {fresh : Nat} {chain' : Chain}
      (h : Laid chain units fresh chain')
      (hlacks : ∀ tail, chain'.getLast? = some tail → tail.room < unit.bytes.length) :
      Laid chain (units ++ [unit]) (fresh + 1) (chain' ++ [Chunk.empty.append unit.bytes])

variable {chain chain' chain'' : Chain} {units units' : List WireUnit} {fresh fresh' : Nat}

/-- What is laid down later comes behind. -/
theorem Laid.trans (h : Laid chain units fresh chain') (h' : Laid chain' units' fresh' chain'') :
    Laid chain (units ++ units') (fresh + fresh') chain'' := by
  induction h' with
  | refl => simpa using h
  | inTail _ hroom ih =>
    rw [← List.append_assoc]
    exact ih.inTail hroom
  | inNewChunk _ hlacks ih =>
    rw [← List.append_assoc]
    exact ih.inNewChunk hlacks

/-- Without units nothing changes. -/
theorem Laid.eq_of_nil (h : Laid chain [] fresh chain') : fresh = 0 ∧ chain' = chain := by
  generalize hunits : ([] : List WireUnit) = units at h
  cases h with
  | refl => exact ⟨rfl, rfl⟩
  | inTail => exact absurd hunits (List.append_ne_nil_of_right_ne_nil _ (List.cons_ne_nil _ _)).symm
  | inNewChunk =>
    exact absurd hunits (List.append_ne_nil_of_right_ne_nil _ (List.cons_ne_nil _ _)).symm

theorem Laid.length_eq (h : Laid chain units fresh chain') :
    chain'.length = chain.length + fresh := by
  induction h with
  | refl => rfl
  | inTail _ _ ih => simpa using ih
  | inNewChunk _ _ ih => simp [ih, Nat.add_assoc]

/-! ### The open message and the rest -/

theorem Laid.bytes (h : Laid chain units fresh chain') :
    chain'.bytes = chain.bytes ++ unitBytes units := by
  induction h with
  | refl => simp
  | inTail _ _ ih => simp_all [← List.append_assoc]
  | inNewChunk _ _ ih => simp [ih]

/-- Nothing that is laid down is committed. -/
theorem Laid.committed (h : Laid chain units fresh chain') :
    chain'.committed = chain.committed := by
  induction h with
  | refl => rfl
  | inTail _ _ ih => simpa using ih
  | inNewChunk _ _ ih => simpa [Chunk.empty] using ih

/-- All that is laid down belongs to the open message. -/
theorem Laid.uncommitted (h : Laid chain units fresh chain') :
    chain'.uncommitted = chain.uncommitted ++ unitBytes units := by
  induction h with
  | refl => simp
  | inTail _ _ ih => simp_all [← List.append_assoc]
  | inNewChunk _ _ ih => simp [ih, Chunk.empty]

/-- A rollback would leave the same chain as before. -/
theorem Laid.rollback (h : Laid chain units fresh chain') : chain'.rollback = chain.rollback := by
  induction h with
  | refl => rfl
  | inTail _ _ ih => simpa [Chain.rollback] using ih
  | inNewChunk _ _ ih =>
    simpa [Chain.rollback, Chunk.rollback, Chunk.empty, Chunk.isEmpty, Chunk.length] using ih

/-- A rollback would give the new chunks back. -/
theorem Laid.emptied (h : Laid chain units fresh chain') :
    chain'.emptied.length = chain.emptied.length + fresh := by
  induction h with
  | refl => rfl
  | inTail _ _ ih => simpa [Chain.emptied] using ih
  | inNewChunk _ _ ih =>
    rw [← Nat.add_assoc, ← ih]
    simp [Chain.emptied, Chunk.rollback, Chunk.empty, Chunk.isEmpty, Chunk.length]

end Chain

end WireQueue
