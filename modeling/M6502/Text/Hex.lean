import M6502.Word

/-!
# Hexadecimal text

Bytes and words as two and four upper-case digits, the usual form for addresses and memory.

## Main definitions

* `Text.hexByte`, `Text.hexWord` — all digits, leading zeros included.
* `Text.hexNumber` — a number without leading zeros, in lower case.

## Main statements

* `Text.hexByte_inj`, `Text.hexWord_inj` — bytes and words can be read back.
-/

namespace M6502.Text

/-- The upper-case digit of a value below sixteen. -/
def hexDigit (n : Nat) : Char := n.digitChar.toUpper

def hexByte (b : Byte) : String :=
  String.ofList [hexDigit (b.toNat / 16), hexDigit (b.toNat % 16)]

def hexWord (w : Word) : String := hexByte w.high ++ hexByte w.low

/-- A number with the mark of its base, in lower case and without leading zeros. -/
def hexNumber (n : Nat) : String := "0x" ++ String.ofList (Nat.toDigits 16 n)

/-! ## Reading back -/

theorem hexDigit_inj {m n : Nat} (hm : m < 16) (hn : n < 16) (h : hexDigit m = hexDigit n) :
    m = n := by
  have hall : ∀ i < 16, ∀ j < 16, hexDigit i = hexDigit j → i = j := by decide
  exact hall m hm n hn h

@[simp] theorem length_hexByte (b : Byte) : (hexByte b).toList.length = 2 := by simp [hexByte]

@[simp] theorem length_hexWord (w : Word) : (hexWord w).toList.length = 4 := by
  rw [hexWord, String.toList_append, List.length_append, length_hexByte, length_hexByte]

theorem hexByte_inj {a b : Byte} (h : hexByte a = hexByte b) : a = b := by
  have ha := a.isLt
  have hb := b.isLt
  have hlist := congrArg String.toList h
  simp only [hexByte, String.toList_ofList, List.cons.injEq, and_true] at hlist
  have hhigh := hexDigit_inj (by omega) (by omega) hlist.1
  have hlow := hexDigit_inj (by omega) (by omega) hlist.2
  exact BitVec.eq_of_toNat_eq (by omega)

theorem hexWord_inj {v w : Word} (h : hexWord v = hexWord w) : v = w := by
  have hlist := congrArg String.toList h
  simp only [hexWord, String.toList_append] at hlist
  obtain ⟨hhigh, hlow⟩ := List.append_inj hlist (by rw [length_hexByte, length_hexByte])
  exact Word.eq_iff_high_low.mpr
    ⟨hexByte_inj (String.toList_inj.mp hhigh), hexByte_inj (String.toList_inj.mp hlow)⟩

end M6502.Text
