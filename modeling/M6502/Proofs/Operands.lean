import M6502.Proofs.Addressing
import M6502.Proofs.Arithmetic

/-!
# What a mode designates

The operand of an instruction in whole numbers. An address is a number below 65536, a byte one below
256, and wherever a sum wraps the number that it wraps at stands beside it. There are four such
places: an index in page zero and the second byte of a pointer wrap at the end of that page, the
second byte of a vector at the end of any page, an indexed address at the end of memory, and so does
the program counter. Resolving an operand threads bytes and registers instead, and comes to the
same.

## Main definitions

* `Designation`, `Operand.designation` — an operand with its numbers.
* `Memory.byteAt`, `Memory.pointerAt`, `Memory.vectorAt` — what memory holds, by numbers.
* `DataMode.baseNumber`, `DataMode.address`, `Mode.designation` — what a mode designates.
* `Mode.Carries` — the index of a mode carries out of the low byte of its base.

## Main statements

* `DataMode.toNat_cell` — a data mode finds the cell that it designates.
* `Mode.resolve_designates` — so does every mode, and nothing but the program counter moves.
-/

namespace M6502

/-- An operand with its numbers. -/
inductive Designation where
  | none
  | accumulator
  | immediate (value : Nat)
  | address (cell : Nat)
  | relative (distance : Int)
deriving DecidableEq, Repr

def Operand.designation : Operand → Designation
  | none => .none
  | accumulator => .accumulator
  | immediate value => .immediate value.toNat
  | address cell => .address cell.toNat
  | relative offset => .relative (signed offset.toNat)

/-! ## What memory holds -/

/-- The number that two bytes make, taken in the order in which they stand. -/
def ByteOrder.join : ByteOrder → Nat → Nat → Nat
  | highFirst, first, second => 256 * first + second
  | lowFirst, first, second => first + 256 * second

namespace Memory

/-- The byte at an address. The address after the last is the first. -/
def byteAt (mem : Memory) (n : Nat) : Nat := (mem.read (.ofNat 16 n)).toNat

/-- The pointer at an offset of page zero, low byte first. -/
def pointerAt (mem : Memory) (p : Nat) : Nat := mem.byteAt p + 256 * mem.byteAt ((p + 1) % 256)

/-- The target that stands at an address and at the next address of the same page. -/
def vectorAt (mem : Memory) (order : ByteOrder) (n : Nat) : Nat :=
  order.join (mem.byteAt n) (mem.byteAt (256 * (n / 256) + (n + 1) % 256))

end Memory

/-! ## What a mode designates -/

namespace Registers

/-- The next byte of the instruction stream. -/
def nextByte (r : Registers) (mem : Memory) : Nat := mem.byteAt r.pc.toNat

/-- The next word of the instruction stream. -/
def nextWord (r : Registers) (mem : Memory) (order : ByteOrder) : Nat :=
  order.join (mem.byteAt r.pc.toNat) (mem.byteAt (r.pc.toNat + 1))

end Registers

namespace DataMode

variable (mode : DataMode) (order : ByteOrder) (mem : Memory) (r : Registers)

/-- The address before an index is added to it. -/
def baseNumber : Nat :=
  match mode with
  | zeroPage => r.nextByte mem
  | zeroPageX => (r.nextByte mem + r.x.toNat) % 256
  | zeroPageY => (r.nextByte mem + r.y.toNat) % 256
  | absolute | absoluteX | absoluteY => r.nextWord mem order
  | indirectX => mem.pointerAt ((r.nextByte mem + r.x.toNat) % 256)
  | indirectY => mem.pointerAt (r.nextByte mem)

/-- The address of the cell that a mode names. -/
def address : Nat :=
  match mode with
  | absoluteX => (mode.baseNumber order mem r + r.x.toNat) % 65536
  | absoluteY | indirectY => (mode.baseNumber order mem r + r.y.toNat) % 65536
  | zeroPage | zeroPageX | zeroPageY | absolute | indirectX => mode.baseNumber order mem r

end DataMode

namespace Mode

variable (mode : Mode) (order : ByteOrder) (mem : Memory) (r : Registers)

/-- What an instruction in the given mode works on. The program counter stands at the first operand
byte. -/
def designation : Designation :=
  match mode with
  | implied => .none
  | accumulator => .accumulator
  | immediate => .immediate (r.nextByte mem)
  | data mode => .address (mode.address order mem r)
  | indirect => .address (mem.vectorAt order (r.nextWord mem order))
  | relative => .relative (signed (r.nextByte mem))

/-- The index of the mode carries out of the low byte of the address to which it is added. -/
def Carries : Prop :=
  match mode with
  | data .absoluteX => 256 ≤ DataMode.absoluteX.baseNumber order mem r % 256 + r.x.toNat
  | data .absoluteY => 256 ≤ DataMode.absoluteY.baseNumber order mem r % 256 + r.y.toNat
  | data .indirectY => 256 ≤ DataMode.indirectY.baseNumber order mem r % 256 + r.y.toNat
  | _ => False

end Mode

/-! ## Bytes and words read -/

theorem ByteOrder.toNat_word (order : ByteOrder) (first second : Byte) :
    (order.word first second).toNat = order.join first.toNat second.toNat := by
  cases order with
  | highFirst => exact Word.toNat_ofBytes first second
  | lowFirst => exact (Word.toNat_ofBytes second first).trans (Nat.add_comm _ _)

theorem Word.toNat_nextInPage (a : Word) :
    a.nextInPage.toNat = 256 * (a.toNat / 256) + (a.toNat + 1) % 256 := by
  have hlow : (a.low + 1).toNat = (a.toNat + 1) % 256 := by
    rw [BitVec.toNat_add, toNat_low]
    exact Nat.mod_add_mod _ _ _
  rw [nextInPage, toNat_ofBytes, toNat_high, hlow]

theorem toNat_add_byte (v index : Byte) : (v + index).toNat = (v.toNat + index.toNat) % 256 :=
  BitVec.toNat_add v index

namespace Memory

variable (mem : Memory)

theorem toNat_read (a : Word) : (mem.read a).toNat = mem.byteAt a.toNat := by
  rw [byteAt, BitVec.ofNat_toNat, BitVec.setWidth_eq]

/-- The byte at a distance from an address, where the last address is followed by the first. -/
theorem toNat_read_add (a : Word) (k : Nat) :
    (mem.read (a + .ofNat 16 k)).toNat = mem.byteAt (a.toNat + k) := by
  rw [byteAt, BitVec.ofNat_add, BitVec.ofNat_toNat, BitVec.setWidth_eq]

theorem toNat_pointer (p : Byte) : (mem.pointer p).toNat = mem.pointerAt p.toNat := by
  rw [pointer, Word.toNat_ofBytes, toNat_read, toNat_read, Word.toNat_ofLow, Word.toNat_ofLow,
    toNat_add_byte, pointerAt, Nat.add_comm]
  rfl

theorem toNat_vector (order : ByteOrder) (a : Word) :
    (mem.vector order a).toNat = mem.vectorAt order a.toNat := by
  rw [vector, order.toNat_word, toNat_read, toNat_read, Word.toNat_nextInPage, vectorAt]

theorem toNat_stream_byte (r : Registers) : (mem.read r.pc).toNat = r.nextByte mem :=
  mem.toNat_read r.pc

theorem toNat_stream_word (order : ByteOrder) (r : Registers) :
    (order.word (mem.read r.pc) (mem.read (r.pc + 1))).toNat = r.nextWord mem order := by
  have hsecond : (mem.read (r.pc + 1)).toNat = mem.byteAt (r.pc.toNat + 1) :=
    mem.toNat_read_add r.pc 1
  rw [order.toNat_word, toNat_read, hsecond, Registers.nextWord]

end Memory

/-! ## Cells -/

namespace DataMode

variable (mode : DataMode) (order : ByteOrder) (mem : Memory) (r : Registers)

theorem toNat_base : (mode.base order mem r).toNat = mode.baseNumber order mem r := by
  cases mode with
  | zeroPage => rw [base, Word.toNat_ofLow, mem.toNat_stream_byte, baseNumber]
  | zeroPageX | zeroPageY =>
    rw [base, Word.toNat_ofLow, toNat_add_byte, mem.toNat_stream_byte, baseNumber]
  | absolute | absoluteX | absoluteY => exact mem.toNat_stream_word order r
  | indirectX => rw [base, mem.toNat_pointer, toNat_add_byte, mem.toNat_stream_byte, baseNumber]
  | indirectY => rw [base, mem.toNat_pointer, mem.toNat_stream_byte, baseNumber]

/-- A data mode finds the cell that it designates. -/
theorem toNat_cell : (mode.cell order mem r).toNat = mode.address order mem r := by
  rw [cell, BitVec.toNat_add, Word.toNat_ofLow, toNat_base]
  have hbase := (mode.base order mem r).isLt
  rw [toNat_base] at hbase
  cases mode with
  | absoluteX | absoluteY | indirectY => rfl
  | zeroPage | zeroPageX | zeroPageY | absolute | indirectX => exact Nat.mod_eq_of_lt hbase

/-- A cell lies on another page than its base exactly if the index carries. -/
theorem crossed_iff_carries :
    (Location.mk (mode.base order mem r) (mode.cell order mem r)).crossed = true ↔
      (Mode.data mode).Carries order mem r := by
  rw [cell, Location.crossed_iff, Word.toNat_low, toNat_base]
  cases mode with
  | absoluteX | absoluteY | indirectY => exact Iff.rfl
  | zeroPage | zeroPageX | zeroPageY | absolute | indirectX =>
    -- an index of zero carries nowhere
    exact iff_of_false (Nat.not_le.mpr (Nat.mod_lt _ (by decide))) id

end DataMode

namespace Mode

theorem resolve_data (mode : DataMode) (order : ByteOrder) (mem : Memory) (r : Registers) :
    (data mode).resolve order mem r = ⟨.address (mode.cell order mem r),
      (Location.mk (mode.base order mem r) (mode.cell order mem r)).crossed,
      r.advance (.ofNat 16 mode.operandLength)⟩ := by
  rw [resolve, mode.locate_eq]

theorem resolve_indirect (order : ByteOrder) (mem : Memory) (r : Registers) :
    indirect.resolve order mem r =
      ⟨.address (mem.vector order (order.word (mem.read r.pc) (mem.read (r.pc + 1)))), false,
        r.advance 2⟩ := by
  rw [resolve, r.fetchWord_eq]

/-- Resolving changes no register but the program counter, which it moves past the operand bytes,
wrapping at the end of memory. It finds what the mode designates, and reports a crossed page exactly
if an index carries out of the low byte of the address to which it is added. -/
theorem resolve_designates (mode : Mode) (order : ByteOrder) (mem : Memory) (r : Registers) :
    let resolved := mode.resolve order mem r
    resolved.registers = { r with pc := resolved.registers.pc } ∧
    resolved.registers.pc.toNat = (r.pc.toNat + mode.operandLength) % 65536 ∧
    resolved.operand.designation = mode.designation order mem r ∧
    (resolved.crossed = true ↔ mode.Carries order mem r) := by
  intro resolved
  have hregisters : resolved.registers = r.advance (.ofNat 16 mode.operandLength) :=
    mode.registers_resolve order mem r
  refine ⟨?registers, ?pc, ?operand, ?crossed⟩
  case registers =>
    rw [hregisters]
    rfl
  case pc =>
    rw [hregisters, Registers.advance, BitVec.toNat_add, BitVec.toNat_ofNat, Nat.add_mod_mod]
  case operand =>
    cases mode with
    | implied | accumulator => rfl
    | immediate => exact congrArg Designation.immediate (mem.toNat_stream_byte r)
    | data mode =>
      rw [show resolved = _ from resolve_data mode order mem r]
      exact congrArg Designation.address (mode.toNat_cell order mem r)
    | indirect =>
      rw [show resolved = _ from resolve_indirect order mem r]
      refine congrArg Designation.address ?_
      rw [mem.toNat_vector order, mem.toNat_stream_word order r]
    | relative => exact congrArg (Designation.relative ∘ signed) (mem.toNat_stream_byte r)
  case crossed =>
    cases mode with
    | implied | accumulator | immediate | indirect | relative =>
      exact iff_of_false Bool.false_ne_true id
    | data mode =>
      rw [show resolved = _ from resolve_data mode order mem r]
      exact mode.crossed_iff_carries order mem r

end Mode

end M6502
