import Mathlib.Data.Nat.Digits.Defs
import Mathlib.Data.Nat.ModEq
import M6502.Proofs.Arithmetic

/-!
# Numbers of many bytes

A list of bytes is a number, its first byte the lowest, and read in two's complement it is another.
Both readings take their first byte off in the same way, so that what is done byte by byte can be
followed by induction on the list; only the last byte carries a sign.

## Main definitions

* `number`, `signedNumber` — the number that bytes make, and in two's complement.
* `overflows` — a number that bytes of a given count do not have in two's complement.
* `wide` — the number that bytes make with a carry above them.
* `Doubling` — bytes are moved up by one bit.

## Main statements

* `number_inj` — bytes of one count are determined by their number.
* `number_complement`, `signedNumber_complement` — the complement of every byte.
* `msb_eq_decide_signedNumber_neg` — the last byte carries the sign.
* `overflows_cons` — whether a number overflows is decided above its lowest byte.
* `signedNumber_neg_xor_overflows` — the order of two numbers, from their difference.
* `Doubling.right_unique`, `Doubling.left_unique` — moving up by one bit can be undone.
* `Doubling.wide_modEq` — bits that are moved up go round in a ring.
-/

namespace M6502

/-- The number that bytes make, the first of which is the lowest. -/
def number (bs : List Byte) : Nat := .ofDigits 256 (bs.map BitVec.toNat)

/-- The number that bytes make in two's complement. -/
def signedNumber (bs : List Byte) : Int :=
  if 2 * number bs < 256 ^ bs.length then number bs else number bs - 256 ^ bs.length

/-- A number that is not the two's-complement value of `n` bytes. -/
def overflows (n : Nat) (k : Int) : Bool := decide (k < -2 ^ (8 * n - 1) ∨ 2 ^ (8 * n - 1) ≤ k)

/-- The number that bytes make with a carry above them. -/
def wide (bs : List Byte) (c : Nat) : Nat := number bs + 256 ^ bs.length * c

/-- The bytes `bs`, with the bit `c` below them, are the bytes `rs` with the bit `d` above them. -/
structure Doubling (bs : List Byte) (c : Nat) (rs : List Byte) (d : Nat) : Prop where
  length : rs.length = bs.length
  low : c ≤ 1
  high : d ≤ 1
  wide_eq : wide rs d = 2 * number bs + c

/-! ## Byte by byte -/

@[simp] theorem number_nil : number [] = 0 := rfl

theorem number_cons (b : Byte) (bs : List Byte) : number (b :: bs) = b.toNat + 256 * number bs :=
  Nat.ofDigits_cons

theorem number_append (as bs : List Byte) :
    number (as ++ bs) = number as + 256 ^ as.length * number bs := by
  rw [number, List.map_append, Nat.ofDigits_append, List.length_map]
  rfl

theorem number_lt (bs : List Byte) : number bs < 256 ^ bs.length := by
  rw [← bs.length_map (f := BitVec.toNat)]
  refine Nat.ofDigits_lt_base_pow_length (by decide) fun d hd => ?_
  obtain ⟨b, -, rfl⟩ := List.mem_map.mp hd
  exact b.isLt

/-- Bytes of one count are determined by their number. -/
theorem number_inj {as bs : List Byte} (hl : as.length = bs.length) (hn : number as = number bs) :
    as = bs := by
  induction as generalizing bs with
  | nil => exact (List.eq_nil_of_length_eq_zero hl.symm).symm
  | cons a as ih =>
    cases bs with
    | nil => cases hl
    | cons b bs =>
      have ha := a.isLt
      have hb := b.isLt
      rw [number_cons, number_cons] at hn
      obtain rfl : a = b := BitVec.eq_of_toNat_eq (by omega)
      rw [ih (Nat.succ.inj hl) (by omega)]

@[simp] theorem signedNumber_singleton (b : Byte) : signedNumber [b] = signed b.toNat := by
  simp only [signedNumber, signed, number_cons, number_nil, List.length_singleton, Nat.mul_zero,
    Nat.add_zero, pow_one]
  split <;> split <;> omega

/-- The sign is a matter of the bytes above the lowest. -/
theorem signedNumber_cons (b : Byte) {bs : List Byte} (h : bs ≠ []) :
    signedNumber (b :: bs) = b.toNat + 256 * signedNumber bs := by
  obtain ⟨c, cs, rfl⟩ := List.exists_cons_of_ne_nil h
  have hb := b.isLt
  rw [signedNumber, signedNumber, number_cons b]
  simp only [List.length_cons, pow_succ]
  split <;> split <;> omega

/-! ## Complements -/

/-- A number and its complement make up all bits. -/
theorem number_complement (bs : List Byte) :
    number (bs.map (~~~·)) + number bs + 1 = 256 ^ bs.length := by
  induction bs with
  | nil => rfl
  | cons b bs ih =>
    have hb := b.isLt
    rw [List.map_cons, number_cons, number_cons, toNat_complement, List.length_cons, pow_succ, ← ih]
    omega

/-- In two's complement, the complement of a number is one less than its negative. -/
theorem signedNumber_complement {bs : List Byte} (h : bs ≠ []) :
    signedNumber (bs.map (~~~·)) = -signedNumber bs - 1 := by
  obtain ⟨b, bs, rfl⟩ := List.exists_cons_of_ne_nil h
  have hsum := number_complement (b :: bs)
  have hcast : ((256 ^ bs.length : Nat) : Int) = 256 ^ bs.length := Nat.cast_pow 256 bs.length
  rw [signedNumber, signedNumber, List.length_map]
  simp only [List.length_cons, pow_succ] at hsum ⊢
  split <;> split <;> omega

/-! ## Signs -/

/-- The last byte carries the sign. -/
theorem msb_eq_decide_signedNumber_neg {bs : List Byte} {r : Byte} (h : bs.getLast? = some r) :
    r.msb = decide (signedNumber bs < 0) := by
  induction bs with
  | nil => cases h
  | cons b bs ih =>
    have hb := b.isLt
    cases bs with
    | nil =>
      obtain rfl : b = r := Option.some.inj h
      rw [signedNumber_singleton, msb_eq_not_decide_lt, ← decide_not, decide_eq_decide, signed]
      split <;> omega
    | cons c cs =>
      rw [List.getLast?_cons_cons] at h
      rw [ih h, signedNumber_cons b (List.cons_ne_nil c cs), decide_eq_decide]
      omega

/-! ## Overflow -/

theorem overflows_one (k : Int) : overflows 1 k = outOfRange k := by
  rw [overflows, outOfRange, decide_eq_decide]
  omega

/-- Whether a number overflows is decided above its lowest byte. -/
theorem overflows_cons {n : Nat} (hn : 0 < n) (r : Byte) (k : Int) :
    overflows (n + 1) (r.toNat + 256 * k) = overflows n k := by
  have hr := r.isLt
  have hpow : (2 : Int) ^ (8 * (n + 1) - 1) = 2 ^ (8 * n - 1) * 256 := by
    rw [show 8 * (n + 1) - 1 = 8 * n - 1 + 8 by omega, pow_add]
    rfl
  rw [overflows, overflows, decide_eq_decide, hpow]
  omega

/-- Bytes have an even number of values. -/
theorem pow_eq_two_mul_pow {n : Nat} (hn : 0 < n) : 256 ^ n = 2 * 2 ^ (8 * n - 1) := by
  rw [show (256 : Nat) = 2 ^ 8 from rfl, ← pow_mul, ← pow_succ']
  congr 1
  omega

/-- The sign of a difference that may have wrapped tells which of two numbers is the smaller, unless
the difference overflows: then it tells the opposite. -/
theorem signedNumber_neg_xor_overflows {as bs rs : List Byte} {c : Nat} (hn : 0 < as.length)
    (hbs : bs.length = as.length) (hrs : rs.length = as.length) (hc : c ≤ 1)
    (h : number rs + number bs + 256 ^ as.length * c = number as + 256 ^ as.length) :
    (decide (signedNumber rs < 0) ^^ overflows as.length (signedNumber as - signedNumber bs)) =
      decide (signedNumber as < signedNumber bs) := by
  have ha := number_lt as
  have hb := number_lt bs
  have hr := number_lt rs
  have hsize : ((256 ^ as.length : Nat) : Int) = 256 ^ as.length := Nat.cast_pow 256 _
  have hhalf : ((2 ^ (8 * as.length - 1) : Nat) : Int) = 2 ^ (8 * as.length - 1) :=
    Nat.cast_pow 2 _
  rw [hbs] at hb
  rw [hrs] at hr
  rw [overflows, ← hhalf, signedNumber, signedNumber, signedNumber, hbs, hrs, ← hsize,
    Bool.eq_iff_iff]
  rw [pow_eq_two_mul_pow hn] at *
  generalize 2 ^ (8 * as.length - 1) = half at *
  simp only [bne_iff_ne, ne_eq, decide_eq_decide, decide_eq_true_eq]
  -- with the last carry known, what is left is linear in the three numbers and half their range
  obtain rfl | rfl := Nat.le_one_iff_eq_zero_or_eq_one.mp hc <;>
    split <;> split <;> split <;> omega

/-! ## Doubling -/

/-- Bytes and a carry above them are determined by the number that they make. -/
theorem wide_inj {as bs : List Byte} {c d : Nat} (hl : as.length = bs.length) (hc : c ≤ 1)
    (hd : d ≤ 1) (h : wide as c = wide bs d) : as = bs ∧ c = d := by
  have ha := number_lt as
  have hb := number_lt bs
  rw [wide, wide, hl] at h
  rw [hl] at ha
  generalize 256 ^ bs.length = size at h ha hb
  have hboth : number as = number bs ∧ c = d := by
    obtain rfl | rfl := Nat.le_one_iff_eq_zero_or_eq_one.mp hc <;>
      obtain rfl | rfl := Nat.le_one_iff_eq_zero_or_eq_one.mp hd <;> omega
  exact ⟨number_inj hl hboth.1, hboth.2⟩

theorem wide_lt (bs : List Byte) {c : Nat} (hc : c ≤ 1) : wide bs c < 2 * 256 ^ bs.length := by
  have hb := number_lt bs
  rw [wide]
  obtain rfl | rfl := Nat.le_one_iff_eq_zero_or_eq_one.mp hc <;> omega

/-- Numbers up to a modulus that are congruent are equal, if both are zero or neither of them. -/
theorem eq_of_modEq_succ_mul {n v w : Nat} (h : w ≡ (n + 1) * v [MOD n]) (hw : w ≤ n) (hv : v ≤ n)
    (hzero : w = 0 ↔ v = 0) : w = v := by
  have hmod : w ≡ v [MOD n] := by
    refine h.trans ?_
    rw [Nat.succ_mul, Nat.add_comm]
    exact Nat.add_mul_mod_self_left v n v
  cases v with
  | zero => exact hzero.mpr rfl
  | succ v =>
    cases w with
    | zero => exact (hzero.mp rfl).symm
    | succ w =>
      have hpred : w ≡ v [MOD n] := hmod.add_right_cancel' 1
      rw [hpred.eq_of_lt_of_lt hw hv]

namespace Doubling

variable {bs rs qs : List Byte} {c d k : Nat}

/-- Without a byte the bit that comes in leaves at once. -/
theorem nil (hc : c ≤ 1) : Doubling [] c [] c := ⟨rfl, hc, hc, by simp [wide]⟩

/-- What the bytes become, and the bit that leaves them, depends on nothing else. -/
theorem right_unique (h : Doubling bs c rs d) (g : Doubling bs c qs k) : rs = qs ∧ d = k :=
  wide_inj (h.length.trans g.length.symm) h.high g.high (h.wide_eq.trans g.wide_eq.symm)

/-- What the bytes were, and the bit that came in, depends on nothing else. -/
theorem left_unique (h : Doubling bs c rs d) (g : Doubling qs k rs d) : bs = qs ∧ c = k := by
  have hwide := h.wide_eq.symm.trans g.wide_eq
  have hc := h.low
  have hk := g.low
  exact ⟨number_inj (h.length.symm.trans g.length) (by omega), by omega⟩

theorem number_right (h : Doubling bs c rs d) :
    number rs = (2 * number bs + c) % 256 ^ bs.length := by
  have hlt := number_lt rs
  rw [h.length] at hlt
  rw [← h.wide_eq, wide, h.length, Nat.add_mul_mod_self_left, Nat.mod_eq_of_lt hlt]

/-- The bit that leaves the bytes is their top bit. -/
theorem high_eq (h : Doubling bs c rs d) (hn : 0 < bs.length) :
    decide (d = 1) = (number bs).testBit (8 * bs.length - 1) := by
  have hr := number_lt rs
  have hb := number_lt bs
  have hwide := h.wide_eq
  have hc := h.low
  rw [wide, h.length] at hwide
  rw [h.length] at hr
  rw [Nat.testBit_eq_decide_div_mod_eq, decide_eq_decide]
  rw [pow_eq_two_mul_pow hn] at hwide hr hb
  generalize 2 ^ (8 * bs.length - 1) = half at *
  obtain rfl | rfl := Nat.le_one_iff_eq_zero_or_eq_one.mp h.high
  · rw [Nat.div_eq_of_lt (by omega)]
  · have hdiv : number bs / half = 1 := Nat.div_eq_of_lt_le (by omega) (by omega)
    rw [hdiv]

theorem number_left (h : Doubling bs c rs d) :
    number bs = (number rs + d * 256 ^ bs.length) / 2 := by
  have hwide := h.wide_eq
  have hc := h.low
  rw [wide, h.length, Nat.mul_comm] at hwide
  omega

/-- The bit that comes in is the lowest bit of what the bytes become. -/
theorem low_eq (h : Doubling bs c rs d) (hn : 0 < bs.length) :
    decide (c = 1) = (number rs).testBit 0 := by
  have hwide := h.wide_eq
  have hc := h.low
  rw [wide, h.length, pow_eq_two_mul_pow hn, Nat.mul_assoc] at hwide
  rw [Nat.testBit_zero, decide_eq_decide]
  omega

/-- Moving up by one bit is multiplying by two, if the top bit counts as the lowest once it has
left: the bits then go round in a ring. -/
theorem wide_modEq (h : Doubling bs c rs d) :
    wide rs d ≡ 2 * wide bs c [MOD 2 * 256 ^ bs.length - 1] := by
  have hround : 2 * wide bs c = wide rs d + (2 * 256 ^ bs.length - 1) * c := by
    have hsize : 0 < 256 ^ bs.length := Nat.pow_pos (by decide)
    rw [h.wide_eq, wide]
    obtain rfl | rfl := Nat.le_one_iff_eq_zero_or_eq_one.mp h.low <;> omega
  rw [hround]
  exact (Nat.add_mul_mod_self_left _ _ _).symm

theorem wide_eq_zero_iff (h : Doubling bs c rs d) : wide rs d = 0 ↔ wide bs c = 0 := by
  have hsize : 0 < 256 ^ bs.length := Nat.pow_pos (by decide)
  rw [h.wide_eq, wide]
  obtain rfl | rfl := Nat.le_one_iff_eq_zero_or_eq_one.mp h.low <;> omega

end Doubling

end M6502
