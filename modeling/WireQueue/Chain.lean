import WireQueue.Chunk

/-! # Chains

A chain is a list of chunks in transmission order. Its bytes fall into the committed bytes and the
bytes of the open message; `rollback` drops the latter and leaves out the chunks that are then
empty, which `emptied` lists. -/

namespace WireQueue

abbrev Chain : Type := List Chunk

namespace Chain

/-- All bytes of the chain, in transmission order. -/
def bytes (chain : Chain) : List UInt8 := chain.flatMap Chunk.bytes

/-- The committed bytes of the chain. -/
def committed (chain : Chain) : List UInt8 := chain.flatMap Chunk.committed

/-- The bytes of the open message. -/
def uncommitted (chain : Chain) : List UInt8 := chain.flatMap Chunk.uncommitted

/-- Number of bytes in the chain. -/
def size (chain : Chain) : Nat := chain.foldr (fun chunk size => chunk.length + size) 0

/-- Makes every byte permanent. -/
def commit (chain : Chain) : Chain := chain.map Chunk.commit

/-- Drops the bytes of the open message, and the chunks that hold no others. -/
def rollback (chain : Chain) : Chain :=
  (chain.map Chunk.rollback).filter fun chunk => !chunk.isEmpty

/-- The chunks that hold no bytes but those of the open message, once these are dropped. -/
def emptied (chain : Chain) : List Chunk := (chain.map Chunk.rollback).filter Chunk.isEmpty

/-- The chain with another chunk in the place of its last one. -/
def replaceLast (chain : Chain) (chunk : Chunk) : Chain := chain.dropLast ++ [chunk]

/-! ### Views of the operations -/

@[simp] theorem bytes_nil : bytes [] = [] := rfl

@[simp] theorem bytes_cons (chunk : Chunk) (chain : Chain) :
    bytes (chunk :: chain) = chunk.bytes ++ bytes chain := rfl

@[simp] theorem bytes_append (front back : Chain) :
    bytes (front ++ back) = bytes front ++ bytes back :=
  List.flatMap_append

@[simp] theorem size_nil : size [] = 0 := rfl

@[simp] theorem size_cons (chunk : Chunk) (chain : Chain) :
    size (chunk :: chain) = chunk.length + size chain := rfl

@[simp] theorem size_append (front back : Chain) :
    size (front ++ back) = size front + size back := by
  induction front with
  | nil => exact (Nat.zero_add _).symm
  | cons chunk front ih => rw [List.cons_append, size_cons, size_cons, ih, Nat.add_assoc]

@[simp] theorem committed_nil : committed [] = [] := rfl

@[simp] theorem committed_cons (chunk : Chunk) (chain : Chain) :
    committed (chunk :: chain) = chunk.committed ++ committed chain := rfl

@[simp] theorem committed_append (front back : Chain) :
    committed (front ++ back) = committed front ++ committed back :=
  List.flatMap_append

@[simp] theorem uncommitted_nil : uncommitted [] = [] := rfl

@[simp] theorem uncommitted_cons (chunk : Chunk) (chain : Chain) :
    uncommitted (chunk :: chain) = chunk.uncommitted ++ uncommitted chain := rfl

@[simp] theorem uncommitted_append (front back : Chain) :
    uncommitted (front ++ back) = uncommitted front ++ uncommitted back :=
  List.flatMap_append

/-- The size is the number of bytes. -/
@[simp] theorem length_bytes (chain : Chain) : chain.bytes.length = chain.size := by
  induction chain with
  | nil => rfl
  | cons chunk chain ih => simp [ih]

/-- Each byte of the chain is either committed or part of the open message. -/
theorem size_eq_add (chain : Chain) :
    chain.size = chain.committed.length + chain.uncommitted.length := by
  induction chain with
  | nil => rfl
  | cons chunk chain ih =>
    simp only [size_cons, committed_cons, uncommitted_cons, List.length_append, Chunk.length, ih]
    omega

@[simp] theorem bytes_commit (chain : Chain) : chain.commit.bytes = chain.bytes := by
  induction chain with
  | nil => rfl
  | cons chunk chain ih =>
    rw [bytes_cons, ← ih, ← Chunk.bytes_commit]
    rfl

/-- A rollback leaves exactly the committed bytes. -/
@[simp] theorem bytes_rollback (chain : Chain) : chain.rollback.bytes = chain.committed := by
  induction chain with
  | nil => rfl
  | cons chunk chain ih =>
    have hcons : rollback (chunk :: chain) =
        (if chunk.rollback.isEmpty then [] else [chunk.rollback]) ++ rollback chain := by
      by_cases h : chunk.rollback.isEmpty <;> simp [rollback, h]
    rw [hcons, bytes_append, ih, committed_cons]
    by_cases h : chunk.rollback.isEmpty
    · have hnil : chunk.committed = [] := by
        simpa [Chunk.isEmpty] using h
      simp [h, hnil]
    · simp [h]

end Chain

end WireQueue
