import WireQueue.Bytes

/-! # Wire elements

A wire element is a value of fixed width with a big-endian byte form: integers of 8, 16 and 32
bits, and the IEEE-754 numbers of 32 and 64 bits. `Element α` packs the width, both directions of
the code and the laws that the queue leans on: every value takes `width` bytes, a width is between
one and eight bytes, and decoding an encoded value gives it back.

Floating-point numbers are kept as their bit patterns (`Binary32`, `Binary64`): the queue moves
them and never computes with them, so every pattern, not-a-number included, reaches the wire
unchanged. -/

namespace WireQueue

/-- A single-precision number, by its bits. -/
structure Binary32 where
  bits : UInt32
  deriving DecidableEq

/-- A double-precision number, by its bits. -/
structure Binary64 where
  bits : UInt64
  deriving DecidableEq

/-- Values of a fixed width with a big-endian byte form. -/
class Element (α : Type) where
  /-- Bytes that one value takes. -/
  width : Nat
  encode : α → List UInt8
  /-- Reads a value back; only byte strings of the right width are of interest. -/
  decode : List UInt8 → α
  /-- Several values back to back; an instance may have a faster way to the same bytes. -/
  encodeAll : List α → List UInt8 := List.flatMap encode
  width_pos : 0 < width
  width_le : width ≤ 8
  length_encode : ∀ value, (encode value).length = width
  decode_encode : ∀ value, decode (encode value) = value
  encodeAll_eq : ∀ values, encodeAll values = values.flatMap encode := by intro values; rfl

namespace Element

attribute [simp] length_encode decode_encode

/-- The code of a type whose values are numbers below `256 ^ n`. -/
@[reducible] def ofNumber {α : Type} (n : Nat) (toNat : α → Nat) (ofNat : Nat → α)
    (pos : 0 < n) (le : n ≤ 8) (lt : ∀ value, toNat value < Nat.pow 256 n)
    (ofNat_toNat : ∀ value, ofNat (toNat value) = value) : Element α where
  width := n
  encode value := bigEndian n (toNat value)
  decode bytes := ofNat (ofBigEndian bytes)
  width_pos := pos
  width_le := le
  length_encode _ := length_bigEndian _ _
  decode_encode value := by
    rw [ofBigEndian_bigEndian, Nat.mod_eq_of_lt (lt value), ofNat_toNat]

/-! ### The element types

A byte is its own encoding, so several bytes are copied as they stand. -/

instance : Element UInt8 where
  width := 1
  encode byte := [byte]
  decode bytes := bytes.headD 0
  encodeAll bytes := bytes
  width_pos := by decide
  width_le := by decide
  length_encode _ := rfl
  decode_encode _ := rfl
  encodeAll_eq bytes := by induction bytes <;> simp_all

instance : Element UInt16 :=
  ofNumber 2 UInt16.toNat UInt16.ofNat (by decide) (by decide) UInt16.toNat_lt
    fun _ => UInt16.ofNat_toNat

instance : Element UInt32 :=
  ofNumber 4 UInt32.toNat UInt32.ofNat (by decide) (by decide) UInt32.toNat_lt
    fun _ => UInt32.ofNat_toNat

/-- Signed integers travel in two's complement. -/
instance : Element Int16 :=
  ofNumber 2 (fun value => value.toUInt16.toNat) (fun n => (UInt16.ofNat n).toInt16)
    (by decide) (by decide) (fun value => value.toUInt16.toNat_lt) fun value => by
      simp

instance : Element Int32 :=
  ofNumber 4 (fun value => value.toUInt32.toNat) (fun n => (UInt32.ofNat n).toInt32)
    (by decide) (by decide) (fun value => value.toUInt32.toNat_lt) fun value => by
      simp

instance : Element Binary32 :=
  ofNumber 4 (fun value => value.bits.toNat) (fun n => ⟨UInt32.ofNat n⟩)
    (by decide) (by decide) (fun value => value.bits.toNat_lt) fun value => by
      simp

instance : Element Binary64 :=
  ofNumber 8 (fun value => value.bits.toNat) (fun n => ⟨UInt64.ofNat n⟩)
    (by decide) (by decide) (fun value => value.bits.toNat_lt) fun value => by
      simp

/-! ### Several values -/

variable {α : Type} [Element α]

@[simp] theorem encodeAll_nil : encodeAll ([] : List α) = [] := by
  simp [encodeAll_eq]

@[simp] theorem encodeAll_cons (value : α) (values : List α) :
    encodeAll (value :: values) = encode value ++ encodeAll values := by
  simp [encodeAll_eq]

@[simp] theorem encodeAll_append (front back : List α) :
    encodeAll (front ++ back) = encodeAll front ++ encodeAll back := by
  simp [encodeAll_eq]

/-- Several values take their number times the width. -/
@[simp] theorem length_encodeAll (values : List α) :
    (encodeAll values).length = values.length * width α := by
  induction values with
  | nil => simp
  | cons value values ih =>
    rw [encodeAll_cons, List.length_append, length_encode, ih, List.length_cons, Nat.succ_mul,
      Nat.add_comm]

end Element

end WireQueue
