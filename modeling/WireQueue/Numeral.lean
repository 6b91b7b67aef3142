import WireQueue.Element

/-! # Elements as numbers

Every element type has its values numbered by their bits: an unsigned integer by itself, a signed
one by its two's complement, a floating-point number by its pattern. What goes over the wire are the
digits of that number, the highest first, and every byte string of the right width is read as a
value.

* `Numeral.encode_decode` — so the code goes both ways without a loss.
* `cells` — several values back to back are read cell by cell. -/

namespace WireQueue

/-- Element types whose values are numbered by their bits. -/
class Numeral (α : Type) [Element α] where
  /-- The bits of a value, as a number. -/
  number : α → Nat
  encode_eq : ∀ value, Element.encode value = bigEndian (Element.width α) (number value)
  number_decode : ∀ bytes : List UInt8, bytes.length = Element.width α →
    number (Element.decode bytes) = ofBigEndian bytes

namespace Numeral

instance : Numeral UInt8 where
  number := UInt8.toNat
  encode_eq byte := by
    show [byte] = bigEndian 1 byte.toNat
    simp [bigEndian]
  number_decode bytes h := by
    obtain ⟨byte, rfl⟩ := List.length_eq_one_iff.mp h
    simp [Element.decode, ofBigEndian]

instance : Numeral UInt16 where
  number := UInt16.toNat
  encode_eq _ := rfl
  number_decode bytes h := by
    have hlt := ofBigEndian_lt bytes
    rw [h] at hlt
    exact UInt16.toNat_ofNat_of_lt' hlt

instance : Numeral UInt32 where
  number := UInt32.toNat
  encode_eq _ := rfl
  number_decode bytes h := by
    have hlt := ofBigEndian_lt bytes
    rw [h] at hlt
    exact UInt32.toNat_ofNat_of_lt' hlt

/-- A signed integer has the number of its two's complement. -/
instance : Numeral Int16 where
  number value := value.toUInt16.toNat
  encode_eq _ := rfl
  number_decode bytes h := by
    have hlt := ofBigEndian_lt bytes
    rw [h] at hlt
    exact UInt16.toNat_ofNat_of_lt' hlt

instance : Numeral Int32 where
  number value := value.toUInt32.toNat
  encode_eq _ := rfl
  number_decode bytes h := by
    have hlt := ofBigEndian_lt bytes
    rw [h] at hlt
    exact UInt32.toNat_ofNat_of_lt' hlt

instance : Numeral Binary32 where
  number value := value.bits.toNat
  encode_eq _ := rfl
  number_decode bytes h := by
    have hlt := ofBigEndian_lt bytes
    rw [h] at hlt
    exact UInt32.toNat_ofNat_of_lt' hlt

instance : Numeral Binary64 where
  number value := value.bits.toNat
  encode_eq _ := rfl
  number_decode bytes h := by
    have hlt := ofBigEndian_lt bytes
    rw [h] at hlt
    exact UInt64.toNat_ofNat_of_lt' hlt

variable {α : Type} [Element α] [Numeral α]

/-- An encoded value reads as its number. -/
theorem ofBigEndian_encode (value : α) : ofBigEndian (Element.encode value) = number value := by
  rw [← number_decode (α := α) _ (Element.length_encode value), Element.decode_encode]

/-- A byte string of the right width is the code of the value that it is read as. -/
theorem encode_decode {bytes : List UInt8} (h : bytes.length = Element.width α) :
    Element.encode (Element.decode bytes : α) = bytes := by
  rw [encode_eq, number_decode bytes h, ← h, bigEndian_ofBigEndian]

end Numeral

/-! ### Several values back to back -/

/-- The first `count` cells of `width` bytes each. -/
def cells (width : Nat) : Nat → List UInt8 → List (List UInt8)
  | 0, _ => []
  | count + 1, bytes => bytes.take width :: cells width count (bytes.drop width)

/-- Each value has a cell of its own. -/
theorem cells_encodeAll {α : Type} [Element α] (values : List α) :
    cells (Element.width α) values.length (Element.encodeAll values) =
      values.map Element.encode := by
  induction values with
  | nil => rfl
  | cons value values ih =>
    have hlength := Element.length_encode value
    rw [List.length_cons, cells, Element.encodeAll_cons, List.take_left' hlength,
      List.drop_left' hlength, ih, List.map_cons]

end WireQueue
