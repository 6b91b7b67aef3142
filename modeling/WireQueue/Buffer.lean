import WireQueue.Chunk

/-! # Buffers

A buffer is a chunk as it lies in memory: its bytes, and the number of them that are committed. It
is changed in place with the arithmetic of a machine, where a difference must not be negative, a
divisor must not be zero, a product must fit its word and a slice must lie within its array. Each
such step is partial here, and `none` means that a program would stop at it. -/

namespace WireQueue

/-! ### Steps within bounds -/

namespace Checked

/-- The difference of two numbers, if it is not negative. -/
def sub? (m n : Nat) : Option Nat := if n ≤ m then some (m - n) else none

/-- The quotient of two numbers, rounded down, unless it is one by zero. -/
def div? (m n : Nat) : Option Nat := if 0 < n then some (m / n) else none

/-- The product of two numbers, if it fits 64 bits. -/
def mul? (m n : Nat) : Option Nat := if m * n < UInt64.size then some (m * n) else none

/-- The sum of two words, if it does not wrap. -/
def addWord? (a b : UInt64) : Option UInt64 :=
  if a.toNat + b.toNat < UInt64.size then some (a + b) else none

/-- The product of two words, if it does not wrap. -/
def mulWord? (a b : UInt64) : Option UInt64 :=
  if a.toNat * b.toNat < UInt64.size then some (a * b) else none

/-- The difference of two words, if it does not wrap. -/
def subWord? (a b : UInt64) : Option UInt64 := if b ≤ a then some (a - b) else none

/-- Goes on if an expectation holds. -/
def require? (holds : Bool) : Option Unit := if holds then some () else none

section Slices

variable {α : Type}

/-- The slice of the first `n` values, if there are as many. -/
def front? (values : List α) (n : Nat) : Option (List α) :=
  if n ≤ values.length then some (values.take n) else none

/-- The slice from index `n` on, if there are as many values before it. -/
def back? (values : List α) (n : Nat) : Option (List α) :=
  if n ≤ values.length then some (values.drop n) else none

end Slices

theorem sub?_of_le {m n : Nat} (h : n ≤ m) : sub? m n = some (m - n) := if_pos h

theorem div?_of_pos {m n : Nat} (h : 0 < n) : div? m n = some (m / n) := if_pos h

theorem mul?_of_lt {m n : Nat} (h : m * n < UInt64.size) : mul? m n = some (m * n) := if_pos h

theorem front?_of_le {α : Type} {values : List α} {n : Nat} (h : n ≤ values.length) :
    front? values n = some (values.take n) := if_pos h

theorem back?_of_le {α : Type} {values : List α} {n : Nat} (h : n ≤ values.length) :
    back? values n = some (values.drop n) := if_pos h

theorem require?_true : require? true = some () := rfl

end Checked

/-! ### Buffers -/

structure Buffer where
  bytes : List UInt8 := []
  /-- Number of committed bytes. -/
  mark : Nat := 0
  deriving DecidableEq

namespace Buffer

/-- The bytes up to the mark are those that are committed. -/
def toChunk (buffer : Buffer) : Chunk where
  committed := buffer.bytes.take buffer.mark
  uncommitted := buffer.bytes.drop buffer.mark

def ofChunk (chunk : Chunk) : Buffer where
  bytes := chunk.bytes
  mark := chunk.committed.length

/-- The mark is not behind the end, and the bytes fit. -/
structure Sound (buffer : Buffer) : Prop where
  mark_le : buffer.mark ≤ buffer.bytes.length
  length_le : buffer.bytes.length ≤ Chunk.capacity

/-- Bytes that can still be added. -/
def room? (buffer : Buffer) : Option Nat := Checked.sub? Chunk.capacity buffer.bytes.length

/-- Bytes behind the mark. -/
def openBytes? (buffer : Buffer) : Option Nat := Checked.sub? buffer.bytes.length buffer.mark

/-- Adds bytes, whether or not there is room. -/
def append (added : List UInt8) (buffer : Buffer) : Buffer :=
  { buffer with bytes := buffer.bytes ++ added }

/-- Says whether there is room for so many bytes, and adds none. -/
def hasRoom? (size : Nat) (buffer : Buffer) : Option (Bool × Buffer) := do
  let room ← buffer.room?
  return (size ≤ room, buffer)

section Push

variable {α : Type} [Element α]

/-- Adds a value if there is room for it, and says whether there was. -/
def push? (value : α) (buffer : Buffer) : Option (Bool × Buffer) := do
  let room ← buffer.room?
  if room < Element.width α then return (false, buffer)
  else return (true, buffer.append (Element.encode value))

/-- Adds as many of the values as there is room for, and says how many. -/
def pushSlice? (values : List α) (buffer : Buffer) : Option (Nat × Buffer) := do
  let room ← buffer.room?
  let most ← Checked.div? room (Element.width α)
  let accepted := min values.length most
  let values ← Checked.front? values accepted
  return (accepted, buffer.append (Element.encodeAll values))

end Push

def commit (buffer : Buffer) : Buffer := { buffer with mark := buffer.bytes.length }

/-- Drops the bytes behind the mark, and says how many. -/
def truncate? (buffer : Buffer) : Option (Nat × Buffer) := do
  let dropped ← buffer.openBytes?
  return (dropped, { buffer with bytes := buffer.bytes.take buffer.mark })

def reset (_ : Buffer) : Buffer := {}

/-- What anyone may do with a buffer, apart from looking at it. -/
inductive Call : Type 1 where
  | push {α : Type} [Element α] (value : α)
  | pushSlice {α : Type} [Element α] (values : List α)
  | reset

def perform? (buffer : Buffer) : Call → Option Buffer
  | @Call.push _ _ value => (buffer.push? value).map Prod.snd
  | @Call.pushSlice _ _ values => (buffer.pushSlice? values).map Prod.snd
  | .reset => some buffer.reset

def run? (buffer : Buffer) : List Call → Option Buffer
  | [] => some buffer
  | call :: rest => do (← buffer.perform? call).run? rest

/-! ### Buffers and chunks -/

@[simp] theorem toChunk_ofChunk (chunk : Chunk) : (ofChunk chunk).toChunk = chunk := by
  simp [toChunk, ofChunk, Chunk.bytes]

@[simp] theorem length_bytes_ofChunk (chunk : Chunk) :
    (ofChunk chunk).bytes.length = chunk.length :=
  chunk.length_bytes

theorem ofChunk_append (chunk : Chunk) (added : List UInt8) :
    ofChunk (chunk.append added) = (ofChunk chunk).append added := by
  rw [ofChunk, Chunk.bytes_append]
  rfl

@[simp] theorem commit_ofChunk (chunk : Chunk) :
    (ofChunk chunk).commit = ofChunk chunk.commit := by
  simp [commit, ofChunk, Chunk.commit, Chunk.bytes]

end Buffer

end WireQueue
