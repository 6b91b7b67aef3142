import WireQueue.Element

/-! # Chunks

A chunk is one link of the chain that a queue transmits: at most `Chunk.capacity` bytes, of which
the first ones are committed and the rest belong to a message that may still be dropped. Data goes
in by whole units: `push?` adds one unit if there is room for all of it, and `fill` adds as many
elements of a list as there is room for.

A `Chunk` is any pair of byte strings; that it holds no more than its capacity is a property,
`Chunk.Fits`, which is kept by all that is added where there is room for it. -/

namespace WireQueue

structure Chunk where
  /-- Bytes of finished messages. -/
  committed : List UInt8 := []
  /-- Bytes of the message that is still open. -/
  uncommitted : List UInt8 := []
  deriving DecidableEq

namespace Chunk

/-- The most bytes a chunk holds. -/
def capacity : Nat := 0x4000

def empty : Chunk := {}

/-- All bytes of the chunk, in the order they were added. -/
def bytes (chunk : Chunk) : List UInt8 := chunk.committed ++ chunk.uncommitted

def length (chunk : Chunk) : Nat := chunk.committed.length + chunk.uncommitted.length

def isEmpty (chunk : Chunk) : Bool := chunk.length == 0

/-- Bytes that can still be added. -/
def room (chunk : Chunk) : Nat := capacity - chunk.length

/-- The chunk holds no more than its capacity. -/
def Fits (chunk : Chunk) : Prop := chunk.length ≤ capacity

/-! ### Adding bytes -/

/-- Adds bytes to the open message, whether or not there is room. -/
def append (bytes : List UInt8) (chunk : Chunk) : Chunk :=
  { chunk with uncommitted := chunk.uncommitted ++ bytes }

/-- Adds one unit, if there is room for the whole of it. -/
def push? (unit : List UInt8) (chunk : Chunk) : Option Chunk :=
  if unit.length ≤ chunk.room then some (chunk.append unit) else none

section Fill

variable {α : Type} [Element α]

/-- How many of the values there is room for. -/
def accepts (values : List α) (chunk : Chunk) : Nat :=
  min values.length (chunk.room / Element.width α)

/-- Adds as many of the values as there is room for, in order. -/
def fill (values : List α) (chunk : Chunk) : Chunk :=
  chunk.append (Element.encodeAll (values.take (chunk.accepts values)))

end Fill

/-! ### The end of a message -/

/-- Makes every byte permanent. -/
def commit (chunk : Chunk) : Chunk := { committed := chunk.bytes }

/-- Drops the bytes of the open message. -/
def rollback (chunk : Chunk) : Chunk := { chunk with uncommitted := [] }

/-- Drops every byte. -/
def reset (_ : Chunk) : Chunk := empty

/-! ### Lengths and room -/

@[simp] theorem length_bytes (chunk : Chunk) : chunk.bytes.length = chunk.length := by
  simp [bytes, length]

@[simp] theorem bytes_empty : empty.bytes = [] := rfl

@[simp] theorem length_empty : empty.length = 0 := rfl

@[simp] theorem room_empty : empty.room = capacity := rfl

@[simp] theorem reset_eq_empty (chunk : Chunk) : chunk.reset = empty := rfl

@[simp] theorem bytes_append (added : List UInt8) (chunk : Chunk) :
    (chunk.append added).bytes = chunk.bytes ++ added := by
  simp [append, bytes]

@[simp] theorem length_append (added : List UInt8) (chunk : Chunk) :
    (chunk.append added).length = chunk.length + added.length := by
  simp [append, length, Nat.add_assoc]

@[simp] theorem committed_append (added : List UInt8) (chunk : Chunk) :
    (chunk.append added).committed = chunk.committed := rfl

@[simp] theorem uncommitted_append (added : List UInt8) (chunk : Chunk) :
    (chunk.append added).uncommitted = chunk.uncommitted ++ added := rfl

/-- What is added is dropped again by a rollback. -/
@[simp] theorem rollback_append (added : List UInt8) (chunk : Chunk) :
    (chunk.append added).rollback = chunk.rollback := rfl

@[simp] theorem append_nil (chunk : Chunk) : chunk.append [] = chunk := by
  simp [append]

@[simp] theorem append_append (first second : List UInt8) (chunk : Chunk) :
    (chunk.append first).append second = chunk.append (first ++ second) := by
  simp [append]

theorem room_append (added : List UInt8) (chunk : Chunk) :
    (chunk.append added).room = chunk.room - added.length := by
  rw [room, room, length_append, Nat.sub_add_eq]

@[simp] theorem bytes_commit (chunk : Chunk) : chunk.commit.bytes = chunk.bytes := by
  simp [commit, bytes]

@[simp] theorem bytes_rollback (chunk : Chunk) : chunk.rollback.bytes = chunk.committed := by
  simp [rollback, bytes]

@[simp] theorem length_rollback (chunk : Chunk) :
    chunk.rollback.length = chunk.committed.length := by
  simp [rollback, length]

/-- What there is room for can be added. -/
theorem fits_append {added : List UInt8} {chunk : Chunk} (hfits : chunk.Fits)
    (hroom : added.length ≤ chunk.room) : (chunk.append added).Fits := by
  simp only [Fits, room, length_append] at *
  omega

section Fill

variable {α : Type} [Element α]

theorem accepts_le_length (values : List α) (chunk : Chunk) :
    chunk.accepts values ≤ values.length :=
  Nat.min_le_left _ _

/-- The accepted elements take no more than the room there is. -/
theorem accepts_mul_width_le_room (values : List α) (chunk : Chunk) :
    chunk.accepts values * Element.width α ≤ chunk.room :=
  Nat.le_trans (Nat.mul_le_mul_right _ (Nat.min_le_right _ _)) (Nat.div_mul_le_self _ _)

/-- An empty chunk accepts at least one element of a nonempty list. -/
theorem accepts_empty_pos {values : List α} (h : values ≠ []) : 0 < empty.accepts values := by
  have hwidth : Element.width α ≤ 8 := Element.width_le
  have hpos : 0 < Element.width α := Element.width_pos
  have hlength := List.length_pos_iff.mpr h
  have hroom : 0 < capacity / Element.width α :=
    Nat.div_pos (Nat.le_trans hwidth (by decide)) hpos
  rw [accepts, room_empty]
  omega

theorem fits_fill {chunk : Chunk} (hfits : chunk.Fits) (values : List α) :
    (chunk.fill values).Fits := by
  apply fits_append hfits
  rw [Element.length_encodeAll, List.length_take, Nat.min_eq_left (accepts_le_length values chunk)]
  exact accepts_mul_width_le_room values chunk

end Fill

end Chunk

end WireQueue
