import M6502.Config
import M6502.Memory
import M6502.Mode
import M6502.Registers

/-!
# Reading operands

The program counter walks over the instruction stream: each byte taken from it moves the counter on
by one. Resolving a mode takes the operand bytes of an instruction and says what they name. It
reads pointers and vectors, but never the data cell itself, and it changes no register but the
program counter.

Words in the stream stand in the configured order. A pointer in page zero always stands low byte
first, and its second byte comes from page zero too. The vector of an indirect jump stands in the
configured order, and its second byte comes from the page of the first.

## Main definitions

* `Registers.fetchByte`, `Registers.fetchWord` — taking from the instruction stream.
* `Memory.pointer`, `Memory.vector` — words that are read inside one page.
* `DataMode.locate` — the cell a data mode names.
* `Mode.resolve` — the operand of an instruction in any mode.

## Main statements

* `DataMode.registers_locate`, `Mode.registers_resolve` — the program counter moves past the
  operand bytes, and no other register changes.
-/

namespace M6502

/-! ## The instruction stream -/

namespace Registers

def fetchByte (r : Registers) (mem : Memory) : Byte × Registers := (mem.read r.pc, r.advance 1)

def fetchWord (r : Registers) (mem : Memory) (order : ByteOrder) : Word × Registers :=
  let (first, r) := r.fetchByte mem
  let (second, r) := r.fetchByte mem
  (order.word first second, r)

/-- Taking a word reads the two bytes at the program counter and moves it on by two. -/
theorem fetchWord_eq (r : Registers) (mem : Memory) (order : ByteOrder) :
    r.fetchWord mem order =
      (order.word (mem.read r.pc) (mem.read (r.pc + 1)), r.advance 2) := by
  simp [fetchWord, fetchByte, advance, BitVec.add_assoc]

end Registers

/-! ## Words read inside one page -/

namespace Memory

/-- The pointer at an offset of page zero. The byte after the last of the page is its first. -/
def pointer (mem : Memory) (offset : Byte) : Word :=
  .ofBytes (mem.read (.ofLow (offset + 1))) (mem.read (.ofLow offset))

/-- The target that an indirect jump finds at an address. Its second byte is read from the same
page, so a vector at the end of a page continues at the start of that page. -/
def vector (mem : Memory) (order : ByteOrder) (a : Word) : Word :=
  order.word (mem.read a) (mem.read a.nextInPage)

end Memory

/-! ## Data cells -/

/-- A data cell as a mode finds it: the address before an index is added, and the cell itself. A
mode without an index, or with one that stays in page zero, has the cell as its base. -/
structure Location where
  base : Word
  address : Word
deriving DecidableEq, Repr

namespace Location

/-- A cell named without going from one page to another. -/
def direct (a : Word) : Location := ⟨a, a⟩

/-- A cell at a distance from a base. -/
def indexed (base : Word) (index : Byte) : Location := ⟨base, base + .ofLow index⟩

/-- The cell lies on another page than the base. -/
def crossed (l : Location) : Bool := !l.base.samePage l.address

end Location

/-- The cell that a data mode names, with its operand bytes taken from the stream. -/
def DataMode.locate (mode : DataMode) (order : ByteOrder) (mem : Memory) (r : Registers) :
    Location × Registers :=
  match mode with
  | zeroPage =>
    let (offset, r) := r.fetchByte mem
    (.direct (.ofLow offset), r)
  | zeroPageX =>
    let (offset, r) := r.fetchByte mem
    (.direct (.ofLow (offset + r.x)), r)
  | zeroPageY =>
    let (offset, r) := r.fetchByte mem
    (.direct (.ofLow (offset + r.y)), r)
  | absolute =>
    let (base, r) := r.fetchWord mem order
    (.direct base, r)
  | absoluteX =>
    let (base, r) := r.fetchWord mem order
    (.indexed base r.x, r)
  | absoluteY =>
    let (base, r) := r.fetchWord mem order
    (.indexed base r.y, r)
  | indirectX =>
    let (offset, r) := r.fetchByte mem
    (.direct (mem.pointer (offset + r.x)), r)
  | indirectY =>
    let (offset, r) := r.fetchByte mem
    (.indexed (mem.pointer offset) r.y, r)

/-- Finding a data cell moves the program counter past the operand bytes and changes no other
register. -/
theorem DataMode.registers_locate (mode : DataMode) (order : ByteOrder) (mem : Memory)
    (r : Registers) :
    (mode.locate order mem r).2 = r.advance (.ofNat 16 mode.operandLength) := by
  cases mode <;> simp [locate, operandLength, Registers.fetchWord_eq, Registers.fetchByte]

/-! ## Any mode -/

/-- The operand of an instruction, and the registers after its operand bytes are taken. -/
structure Resolved where
  operand : Operand
  /-- The operand is an indexed cell on another page than its base. -/
  crossed : Bool
  registers : Registers
deriving DecidableEq, Repr

/-- The operand of an instruction in the given mode. The program counter stands at the first
operand byte and is moved past the last. -/
def Mode.resolve (mode : Mode) (order : ByteOrder) (mem : Memory) (r : Registers) : Resolved :=
  match mode with
  | implied => ⟨.none, false, r⟩
  | accumulator => ⟨.accumulator, false, r⟩
  | immediate =>
    let (value, r) := r.fetchByte mem
    ⟨.immediate value, false, r⟩
  | data mode =>
    let (location, r) := mode.locate order mem r
    ⟨.address location.address, location.crossed, r⟩
  | indirect =>
    let (pointer, r) := r.fetchWord mem order
    ⟨.address (mem.vector order pointer), false, r⟩
  | relative =>
    let (offset, r) := r.fetchByte mem
    ⟨.relative offset, false, r⟩

/-- Resolving an operand moves the program counter past the operand bytes and changes no other
register. -/
theorem Mode.registers_resolve (mode : Mode) (order : ByteOrder) (mem : Memory)
    (r : Registers) :
    (mode.resolve order mem r).registers = r.advance (.ofNat 16 mode.operandLength) := by
  cases mode <;> simp [resolve, operandLength, DataMode.registers_locate,
    Registers.fetchWord_eq, Registers.fetchByte, Registers.advance]

end M6502
