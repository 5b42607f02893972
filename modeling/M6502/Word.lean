/-!
# Bytes and words

The two sizes of number the processor handles: an eight-bit byte and a sixteen-bit word. A word
used as an address has a *page*, its high byte, and an *offset*, its low byte. All arithmetic on
both wraps, as it does on the chip.

## Main definitions

* `Word.ofBytes` — the word with a given high and low byte.
* `Word.high`, `Word.low` — the two bytes of a word.
* `Word.samePage` — two addresses lie on one page.
* `Word.nextInPage` — the next cell, wrapping inside the page.

## Main statements

* `Word.ofBytes_high_low`, `Word.high_ofBytes`, `Word.low_ofBytes` — a word is its two bytes.
* `Word.toNat_ofBytes` — the value of a word is 256 times its page plus its offset.
-/

namespace M6502

/-- An eight-bit value: a register, or the content of one memory cell. -/
abbrev Byte := BitVec 8

/-- A sixteen-bit value: an address, or two bytes taken together. -/
abbrev Word := BitVec 16

namespace Word

/-- The word whose high byte is `high` and whose low byte is `low`. -/
def ofBytes (high low : Byte) : Word := high ++ low

/-- The high byte of a word; of an address, its page. -/
def high (w : Word) : Byte := w.extractLsb' 8 8

/-- The low byte of a word; of an address, its offset within the page. -/
def low (w : Word) : Byte := w.extractLsb' 0 8

/-- The word with the value of `b`: as an address, the cell `b` of page zero. -/
def ofLow (b : Byte) : Word := ofBytes 0 b

/-- The word with the value of `b` read as a two's-complement number. -/
def ofSigned (b : Byte) : Word := b.signExtend 16

/-- Two addresses lie on one 256-byte page. -/
def samePage (a b : Word) : Bool := high a == high b

/-- The next cell of the same page; the last cell of a page is followed by its first. -/
def nextInPage (a : Word) : Word := ofBytes (high a) (low a + 1)

/-! ## A word is its two bytes -/

theorem toNat_ofBytes (h l : Byte) : (ofBytes h l).toNat = 256 * h.toNat + l.toNat := by
  change (h ++ l : BitVec (8 + 8)).toNat = _
  rw [BitVec.toNat_append, ← Nat.shiftLeft_add_eq_or_of_lt l.isLt, Nat.shiftLeft_eq]
  omega

theorem toNat_high (w : Word) : (high w).toNat = w.toNat / 256 := by
  have := w.isLt
  simp only [high, BitVec.extractLsb'_toNat, Nat.shiftRight_eq_div_pow]
  omega

theorem toNat_low (w : Word) : (low w).toNat = w.toNat % 256 := by
  simp [low, BitVec.extractLsb'_toNat]

@[simp] theorem high_ofBytes (h l : Byte) : high (ofBytes h l) = h := by
  apply BitVec.eq_of_toNat_eq
  rw [toNat_high, toNat_ofBytes]
  omega

@[simp] theorem low_ofBytes (h l : Byte) : low (ofBytes h l) = l := by
  apply BitVec.eq_of_toNat_eq
  rw [toNat_low, toNat_ofBytes]
  omega

@[simp] theorem ofBytes_high_low (w : Word) : ofBytes (high w) (low w) = w := by
  apply BitVec.eq_of_toNat_eq
  rw [toNat_ofBytes, toNat_high, toNat_low]
  omega

/-- Two words are equal exactly when they agree in both bytes. -/
theorem eq_iff_high_low {a b : Word} : a = b ↔ high a = high b ∧ low a = low b := by
  constructor
  · rintro rfl
    exact ⟨rfl, rfl⟩
  · rintro ⟨hh, hl⟩
    rw [← ofBytes_high_low a, ← ofBytes_high_low b, hh, hl]

@[simp] theorem toNat_ofLow (b : Byte) : (ofLow b).toNat = b.toNat := by
  simp [ofLow, toNat_ofBytes]

end Word

end M6502
