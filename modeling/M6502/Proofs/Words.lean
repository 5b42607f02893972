import M6502.Proofs.Operands

/-!
# Words in memory

Four readers make a word of two bytes. They differ in where they look for the second byte, and some
of them take the order in which the bytes stand. The reader of memory and the instruction stream go
on at the next address, which after the last is the first. A pointer stays in page zero, and a
vector stays in the page in which it begins. So a reader that stays in a page agrees with one that
does not everywhere but at the last cell of the page. There the two differ exactly if the cells in
which they go on hold different bytes.

## Main definitions

* `Word.swap` — the word with its two bytes exchanged.

## Main statements

* `Word.nextInPage_eq_add_one_iff` — where staying in the page makes a difference.
* `Memory.vector_eq_readWord_iff` — a vector is the word at its address if the second bytes agree.
* `Memory.readers_agree` — the four readers compared, in both orders.
-/

namespace M6502

namespace Word

/-- The word with its two bytes exchanged. -/
def swap (w : Word) : Word := ofBytes w.low w.high

@[simp] theorem swap_ofBytes (h l : Byte) : (ofBytes h l).swap = ofBytes l h := by
  simp [swap]

/-- Words with the same low byte are equal when their high bytes are. -/
theorem ofBytes_inj_left {g h l : Byte} : ofBytes g l = ofBytes h l ↔ g = h := by
  simp [eq_iff_high_low]

/-- The next cell of the page is the next cell of memory, but at the end of the page. -/
theorem nextInPage_eq_add_one_iff (a : Word) : a.nextInPage = a + 1 ↔ a.low ≠ 0xFF := by
  have ha := a.isLt
  rw [ne_eq, ← BitVec.toNat_inj, ← BitVec.toNat_inj, toNat_nextInPage, toNat_low,
    BitVec.toNat_add]
  change _ = (a.toNat + 1) % 65536 ↔ ¬a.toNat % 256 = 255
  omega

/-- At the end of a page the next cell is the first of the same page. -/
theorem nextInPage_of_low_eq {a : Word} (h : a.low = 0xFF) : a.nextInPage = ofBytes a.high 0 := by
  rw [nextInPage, h]
  rfl

theorem nextInPage_ofLow (b : Byte) : (ofLow b).nextInPage = ofLow (b + 1) := by
  simp [nextInPage, ofLow]

end Word

theorem ByteOrder.word_highFirst_eq_swap (first second : Byte) :
    highFirst.word first second = (lowFirst.word first second).swap := by
  simp [word]

/-- What the instruction stream holds at the program counter, low byte first, is the word at that
address. -/
theorem Registers.fetchWord_lowFirst (r : Registers) (mem : Memory) :
    (r.fetchWord mem .lowFirst).1 = mem.readWord r.pc := by
  rw [fetchWord_eq]
  rfl

namespace Memory

variable (mem : Memory)

/-- The other order reads the same two bytes. -/
theorem vector_highFirst (a : Word) :
    mem.vector .highFirst a = (mem.vector .lowFirst a).swap :=
  ByteOrder.word_highFirst_eq_swap _ _

/-- A pointer is a vector of page zero. -/
theorem pointer_eq_vector (b : Byte) : mem.pointer b = mem.vector .lowFirst (.ofLow b) := by
  rw [vector, Word.nextInPage_ofLow]
  rfl

/-- A vector is the word at its address exactly if the bytes agree in which they go on. -/
theorem vector_eq_readWord_iff (a : Word) :
    mem.vector .lowFirst a = mem.readWord a ↔ mem.read a.nextInPage = mem.read (a + 1) :=
  Word.ofBytes_inj_left

theorem vector_eq_readWord {a : Word} (h : a.low ≠ 0xFF) :
    mem.vector .lowFirst a = mem.readWord a := by
  rw [vector_eq_readWord_iff, (a.nextInPage_eq_add_one_iff).mpr h]

theorem vector_ne_readWord_iff {a : Word} (h : a.low = 0xFF) :
    mem.vector .lowFirst a ≠ mem.readWord a ↔ mem.read (.ofBytes a.high 0) ≠ mem.read (a + 1) := by
  rw [ne_eq, vector_eq_readWord_iff, Word.nextInPage_of_low_eq h]

theorem pointer_eq_readWord {b : Byte} (h : b ≠ 0xFF) :
    mem.pointer b = mem.readWord (.ofLow b) := by
  rw [pointer_eq_vector, vector_eq_readWord]
  rwa [Word.ofLow, Word.low_ofBytes]

/-- The four readers of words agree but for their boundaries, over every memory. The instruction
stream, low byte first, holds the words of memory, also where it wraps after the last address. A
pointer of page zero is the vector that begins at the same cell. Both are the word of memory there,
unless they begin at the last cell of a page; and then they are another word exactly if the first
cell of that page and the first cell after it hold different bytes. The readers that take an order
read, in the other order, the same two bytes exchanged. -/
theorem readers_agree :
    (∀ r : Registers, (r.fetchWord mem .lowFirst).1 = mem.readWord r.pc ∧
      (r.fetchWord mem .highFirst).1 = (mem.readWord r.pc).swap) ∧
    (∀ b, mem.pointer b = mem.vector .lowFirst (.ofLow b) ∧
      (b ≠ 0xFF → mem.pointer b = mem.readWord (.ofLow b))) ∧
    (mem.pointer 0xFF ≠ mem.readWord 0x00FF ↔ mem.read 0x0000 ≠ mem.read 0x0100) ∧
    (∀ a : Word,
      (a.low ≠ 0xFF → mem.vector .lowFirst a = mem.readWord a) ∧
      (a.low = 0xFF → (mem.vector .lowFirst a ≠ mem.readWord a ↔
        mem.read (.ofBytes a.high 0) ≠ mem.read (a + 1))) ∧
      mem.vector .highFirst a = (mem.vector .lowFirst a).swap) := by
  refine ⟨fun r => ⟨r.fetchWord_lowFirst mem, ?_⟩,
    fun b => ⟨mem.pointer_eq_vector b, mem.pointer_eq_readWord⟩, ?_,
    fun a => ⟨mem.vector_eq_readWord, mem.vector_ne_readWord_iff, mem.vector_highFirst a⟩⟩
  · rw [← r.fetchWord_lowFirst mem, Registers.fetchWord_eq, Registers.fetchWord_eq]
    exact ByteOrder.word_highFirst_eq_swap _ _
  · rw [pointer_eq_vector]
    exact mem.vector_ne_readWord_iff rfl

/-- Bytes at the end of a page, of which the next in memory and the first of the page differ, and
the two cells at which the address wraps to zero. -/
theorem readers_agree_but_at_end_of_page :
    let mem := ((blank.load 0x10FF [0x34, 0xEE]).write 0x1000 0x12).load 0xFFFF [0x78, 0x56]
    let r := { Registers.powerOn with pc := 0xFFFF }
    (r.fetchWord mem .lowFirst).1 = 0x5678 ∧ (r.fetchWord mem .highFirst).1 = 0x7856 ∧
      mem.pointer 0x00 = mem.readWord 0x0000 ∧
      mem.vector .lowFirst 0x10FE = mem.readWord 0x10FE ∧
      mem.vector .lowFirst 0x10FF ≠ mem.readWord 0x10FF ∧
      mem.vector .highFirst 0x10FF = 0x3412 := by
  intro mem r
  obtain ⟨hstream, hpointer, -, hvector⟩ := mem.readers_agree
  obtain ⟨hlow, hhigh⟩ := hstream r
  obtain ⟨hin, -, -⟩ := hvector 0x10FE
  obtain ⟨-, hend, hswap⟩ := hvector 0x10FF
  exact ⟨hlow.trans (by decide), hhigh.trans (by decide), (hpointer 0x00).2 (by decide),
    hin (by decide), (hend (by decide)).mpr (by decide), hswap.trans (by decide)⟩

end Memory

end M6502
