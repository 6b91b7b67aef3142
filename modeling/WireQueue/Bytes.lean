/-! # Big-endian digits

Numbers travel most significant byte first. `bigEndian n v` writes the `n` lowest base-256 digits
of `v`, and `ofBigEndian` reads any byte string back as a number.

The two are inverse on `n` bytes: reading what was written gives `v` modulo `256 ^ n`
(`ofBigEndian_bigEndian`), and writing what was read gives the bytes again
(`bigEndian_ofBigEndian`). -/

namespace WireQueue

/-- The `n` lowest base-256 digits of `v`, most significant first. -/
def bigEndian : Nat → Nat → List UInt8
  | 0, _ => []
  | n + 1, v => UInt8.ofNat (v / Nat.pow 256 n) :: bigEndian n v

/-- The number whose base-256 digits are the given bytes, most significant first. -/
def ofBigEndian : List UInt8 → Nat
  | [] => 0
  | byte :: bytes => Nat.pow 256 bytes.length * byte.toNat + ofBigEndian bytes

@[simp] theorem length_bigEndian (n v : Nat) : (bigEndian n v).length = n := by
  induction n with
  | zero => rfl
  | succ n ih => simp [bigEndian, ih]

/-- Reading `n` written digits gives the number back, up to the digits that were not written. -/
theorem ofBigEndian_bigEndian (n v : Nat) : ofBigEndian (bigEndian n v) = v % Nat.pow 256 n := by
  induction n with
  | zero => simp [bigEndian, ofBigEndian, Nat.mod_one]
  | succ n ih =>
    rw [bigEndian, ofBigEndian, ih, length_bigEndian, UInt8.toNat_ofNat']
    exact (Nat.add_comm _ _).trans Nat.mod_pow_succ.symm

/-- A byte string of length `n` reads as a number below `256 ^ n`. -/
theorem ofBigEndian_lt (bytes : List UInt8) :
    ofBigEndian bytes < Nat.pow 256 bytes.length := by
  induction bytes with
  | nil => simp [ofBigEndian]
  | cons byte bytes ih =>
    have hbyte : byte.toNat + 1 ≤ 256 := byte.toNat_lt
    have hmul := Nat.mul_le_mul_left (Nat.pow 256 bytes.length) hbyte
    rw [Nat.mul_succ] at hmul
    show Nat.pow 256 bytes.length * byte.toNat + ofBigEndian bytes < Nat.pow 256 bytes.length * 256
    omega

/-- Digits above the `n` lowest are not written. -/
theorem bigEndian_add_mul (n v k : Nat) :
    bigEndian n (Nat.pow 256 n * k + v) = bigEndian n v := by
  induction n generalizing k with
  | zero => rfl
  | succ n ih =>
    have hsplit : Nat.pow 256 (n + 1) * k + v = Nat.pow 256 n * (256 * k) + v :=
      congrArg (· + v) (Nat.mul_assoc _ _ _)
    have hpos : 0 < Nat.pow 256 n := Nat.pow_pos (by decide)
    rw [hsplit, bigEndian, bigEndian, ih, Nat.mul_add_div hpos]
    congr 1
    apply UInt8.toNat_inj.mp
    rw [UInt8.toNat_ofNat', UInt8.toNat_ofNat']
    omega

/-- Writing what was read gives the bytes again. -/
theorem bigEndian_ofBigEndian (bytes : List UInt8) :
    bigEndian bytes.length (ofBigEndian bytes) = bytes := by
  induction bytes with
  | nil => rfl
  | cons byte bytes ih =>
    have hlt := ofBigEndian_lt bytes
    have hpos : 0 < Nat.pow 256 bytes.length := Nat.pow_pos (by decide)
    rw [List.length_cons, ofBigEndian, bigEndian, bigEndian_add_mul, ih, Nat.mul_add_div hpos,
      Nat.div_eq_of_lt hlt, Nat.add_zero, UInt8.ofNat_toNat]

end WireQueue
