/-! # Payload alignment

Payloads are padded with zeros to a multiple of eight bytes. `alignUp` rounds a 64-bit size up by
one addition and one bit mask. Below the last seven sizes, where the addition would wrap, the mask
does what its name says: `toNat_alignUp` gives the result as a quotient and a product. -/

namespace WireQueue

/-- Payloads take a multiple of this many bytes. -/
def payloadAlignment : UInt64 := 8

/-- Rounds `size` up to a multiple of `payloadAlignment`: a carry into the next multiple, then the
low bits are cleared. -/
def alignUp (size : UInt64) : UInt64 :=
  (size + (payloadAlignment - 1)) &&& ~~~(payloadAlignment - 1)

/-- Clearing the three low bits of a 64-bit number leaves its multiple of eight. -/
theorem and_mask_eq (n : Nat) (h : n < UInt64.size) : n &&& (UInt64.size - 8) = n / 8 * 8 := by
  have hsize : UInt64.size = 2 ^ 64 := rfl
  rw [hsize] at h
  apply Nat.eq_of_testBit_eq
  intro i
  have hmask : UInt64.size - 8 = (2 ^ 61 - 1) <<< 3 := by decide
  have hshift : n / 8 * 8 = (n >>> 3) <<< 3 := by
    rw [Nat.shiftLeft_eq, Nat.shiftRight_eq_div_pow]
  rw [hmask, hshift, Nat.testBit_and, Nat.testBit_shiftLeft, Nat.testBit_shiftLeft,
    Nat.testBit_shiftRight, Nat.testBit_two_pow_sub_one]
  by_cases hlow : 3 ≤ i
  · by_cases hhigh : i < 64
    · simp [hlow, show i - 3 < 61 by omega, show 3 + (i - 3) = i by omega]
    · have hbit : n.testBit i = false :=
        Nat.testBit_lt_two_pow (Nat.lt_of_lt_of_le h (Nat.pow_le_pow_right (by decide) (by omega)))
      simp [hbit, show 3 + (i - 3) = i by omega]
  · simp [hlow]

/-- Where the addition does not wrap, the result is the size rounded up to a multiple of eight. -/
theorem toNat_alignUp (size : UInt64) (h : size.toNat ≤ UInt64.size - 8) :
    (alignUp size).toNat = (size.toNat + 7) / 8 * 8 := by
  have hmask : (~~~(payloadAlignment - 1)).toNat = UInt64.size - 8 := by decide
  have hlt : size.toNat + 7 < UInt64.size := by
    rw [UInt64.size] at *
    omega
  have hadd : (size + (payloadAlignment - 1)).toNat = size.toNat + 7 := by
    rw [UInt64.toNat_add, show (payloadAlignment - 1).toNat = 7 from rfl]
    exact Nat.mod_eq_of_lt hlt
  rw [alignUp, UInt64.toNat_and, hmask, hadd, and_mask_eq _ hlt]

end WireQueue
