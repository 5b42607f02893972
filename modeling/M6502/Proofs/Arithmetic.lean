import M6502.Instruction.Operation

/-!
# Bytes as numbers

What the operations do to bytes, said with whole numbers: sums and differences with a carry, the
overflow of a signed sum, and shifts and rotations as one step on a number of nine bits.

## Main definitions

* `signed` — a byte read in two's complement.
* `outOfRange` — a number that no byte has in two's complement.

## Main statements

* `overflow_eq` — the overflow flag of a sum tells that the signed sum is out of range.
* `toNat_sum`, `toNat_difference` — the byte that a sum or a difference leaves.
* `toNat_rotateLeft`, `toNat_rotateRight` — a rotation is one step on a number of nine bits.
-/

namespace M6502

/-- The number that a byte is in two's complement. -/
def signed (n : Nat) : Int := if n < 128 then n else n - 256

/-- A number that is not the two's-complement value of a byte. -/
def outOfRange (n : Int) : Bool := decide (n < -128 ∨ 127 < n)

/-! ## Sums and differences -/

theorem msb_eq_not_decide_lt (v : Byte) : v.msb = !decide (v.toNat < 128) := by
  simp [BitVec.msb_eq_decide, ← decide_not]

theorem toNat_complement (v : Byte) : (~~~v).toNat = 255 - v.toNat := by
  rw [BitVec.toNat_not]

/-- The complement of a byte is one less than its negative. -/
theorem signed_complement (v : Byte) : signed (~~~v).toNat = -signed v.toNat - 1 := by
  have hv := v.isLt
  rw [toNat_complement]
  unfold signed
  split <;> split <;> omega

/-- The overflow flag of a sum with carry tells that the signed sum is out of range. -/
theorem overflow_eq {a b v : Byte} {c : Nat} (hc : c ≤ 1)
    (hv : v.toNat = (a.toNat + b.toNat + c) % 256) :
    (~~~(a ^^^ b) &&& (a ^^^ v)).msb = outOfRange (signed a.toNat + signed b.toNat + c) := by
  have ha := a.isLt
  have hb := b.isLt
  -- two terms of one sign, and a result of the other
  have hmsb : (~~~(a ^^^ b) &&& (a ^^^ v)).msb = (!(a.msb ^^ b.msb) && (a.msb ^^ v.msb)) := by
    simp
  simp only [hmsb, msb_eq_not_decide_lt, hv, outOfRange, signed]
  by_cases hsa : a.toNat < 128 <;> by_cases hsb : b.toNat < 128 <;>
    by_cases hsv : (a.toNat + b.toNat + c) % 256 < 128 <;>
    simp [hsa, hsb, hsv] <;> omega

theorem toNat_sum (a v : Byte) (c : Nat) :
    (BitVec.ofNat 8 (a.toNat + v.toNat + c)).toNat = (a.toNat + v.toNat + c) % 256 := by
  rw [BitVec.toNat_ofNat]

theorem toNat_difference (a v : Byte) (c : Nat) :
    ((BitVec.ofNat 8 (a.toNat + (~~~v).toNat + c)).toNat : Int) =
      (a.toNat - v.toNat - (1 - c)) % 256 := by
  have hv := v.isLt
  rw [toNat_sum, toNat_complement]
  omega

/-! ## Shifts and rotations -/

theorem toNat_shiftLeft_one (v : Byte) : (v <<< 1).toNat = 2 * v.toNat % 256 := by
  rw [BitVec.toNat_shiftLeft, Nat.shiftLeft_eq, Nat.mul_comm]

theorem toNat_shiftRight_one (v : Byte) : (v >>> 1).toNat = v.toNat / 2 := by
  rw [BitVec.toNat_ushiftRight, Nat.shiftRight_eq_div_pow]

/-- A rotation to the left is one step on the nine bits of the byte and the carry. -/
theorem toNat_rotateLeft (v : Byte) (carry : Bool) :
    (v <<< 1 ||| if carry then 0x01 else 0).toNat = (2 * v.toNat + carry.toNat) % 256 := by
  have hfree : v <<< 1 &&& (if carry then 0x01 else 0) = 0 := by decide +revert
  rw [← BitVec.add_eq_or_of_and_eq_zero _ _ hfree, BitVec.toNat_add, toNat_shiftLeft_one]
  cases carry <;> simp

/-- A rotation to the right is one step on the nine bits of the carry and the byte. -/
theorem toNat_rotateRight (v : Byte) (carry : Bool) :
    (v >>> 1 ||| if carry then 0x80 else 0).toNat = (256 * carry.toNat + v.toNat) / 2 := by
  have hv := v.isLt
  have hfree : v >>> 1 &&& (if carry then 0x80 else 0) = 0 := by decide +revert
  rw [← BitVec.add_eq_or_of_and_eq_zero _ _ hfree, BitVec.toNat_add, toNat_shiftRight_one]
  cases carry <;> simp <;> omega

/-- A shift to the left moves the top bit out. -/
theorem msb_eq_decide_rotateLeft (v : Byte) {c : Nat} (hc : c ≤ 1) :
    v.msb = decide (256 ≤ 2 * v.toNat + c) := by
  rw [msb_eq_not_decide_lt, ← decide_not, decide_eq_decide]
  omega

/-- A shift to the right moves the lowest bit out. -/
theorem getLsbD_zero_eq_decide_rotateRight (v : Byte) (c : Nat) :
    v.getLsbD 0 = decide ((256 * c + v.toNat) % 2 = 1) := by
  have hbit : v.getLsbD 0 = decide (v.toNat % 2 = 1) := Nat.testBit_zero v.toNat
  rw [hbit, decide_eq_decide]
  omega

end M6502
