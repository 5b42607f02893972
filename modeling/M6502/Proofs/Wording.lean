import M6502.Proofs.Lines
import M6502.Proofs.Operands

/-!
# The wording of lines

The lines that a step can write, from the numbers that they show. The names in a line come from a
chart of the documented instructions, which is ordered by name and knows nothing of decoding, and
the digits of a number are looked up. The wording of events comes to the same.

## Main definitions

* `Text.hex` — a number in hexadecimal, with a given count of digits.
* `traceLine`, `breakLine`, `warningLine` — the lines.
* `chart`, `names?` — the names of the documented instructions and of their modes, by opcode.

## Main statements

* `names?_eq_decode` — the chart has the names of what an opcode is decoded to.
* `Event.line_executed`, `Event.line_brk`, `Event.line_illegalOpcode` — the lines of events.
-/

namespace M6502

open Text

namespace Text

/-- The last `count` digits of a number in hexadecimal. -/
def hexDigits : Nat → Nat → List Char
  | 0, _ => []
  | count + 1, n => hexDigits count (n / 16) ++ ["0123456789ABCDEF".toList.getD (n % 16) ' ']

/-- The last `count` digits of a number in hexadecimal, as a text. -/
def hex (count n : Nat) : String := .ofList (hexDigits count n)

end Text

/-- The line of an executed instruction. -/
def traceLine (address opcode : Nat) (name mode : String) (cycles : Nat) (r : Registers) : String :=
  "TRACE $" ++ hex 4 address ++ "  " ++ hex 2 opcode ++ "  " ++ name ++ " " ++ mode
    ++ "  cyc=" ++ toString cycles
    ++ "  A=" ++ hex 2 r.a.toNat ++ " X=" ++ hex 2 r.x.toNat ++ " Y=" ++ hex 2 r.y.toNat
    ++ " SP=" ++ hex 4 r.sp.toNat ++ " P=" ++ hex 2 r.status.bits.toNat

/-- The line before that of a break. -/
def breakLine (address : Nat) : String := "DEBUG BRK at $" ++ hex 4 address

/-- The line of an undocumented opcode. -/
def warningLine (opcode address : Nat) : String :=
  "WARN illegal opcode $" ++ hex 2 opcode ++ " at $" ++ hex 4 address

/-- The documented instructions by name, each with its modes and their opcodes. -/
def chart : List (String × List (String × Nat)) :=
  [ ("ADC", [("Immediate", 0x69), ("ZeroPage", 0x65), ("ZeroPageX", 0x75), ("Absolute", 0x6D),
      ("AbsoluteX", 0x7D), ("AbsoluteY", 0x79), ("IndirectX", 0x61), ("IndirectY", 0x71)]),
    ("AND", [("Immediate", 0x29), ("ZeroPage", 0x25), ("ZeroPageX", 0x35), ("Absolute", 0x2D),
      ("AbsoluteX", 0x3D), ("AbsoluteY", 0x39), ("IndirectX", 0x21), ("IndirectY", 0x31)]),
    ("ASL", [("Accumulator", 0x0A), ("ZeroPage", 0x06), ("ZeroPageX", 0x16), ("Absolute", 0x0E),
      ("AbsoluteX", 0x1E)]),
    ("BCC", [("Relative", 0x90)]),
    ("BCS", [("Relative", 0xB0)]),
    ("BEQ", [("Relative", 0xF0)]),
    ("BIT", [("ZeroPage", 0x24), ("Absolute", 0x2C)]),
    ("BMI", [("Relative", 0x30)]),
    ("BNE", [("Relative", 0xD0)]),
    ("BPL", [("Relative", 0x10)]),
    ("BRK", [("Implied", 0x00)]),
    ("BVC", [("Relative", 0x50)]),
    ("BVS", [("Relative", 0x70)]),
    ("CLC", [("Implied", 0x18)]),
    ("CLD", [("Implied", 0xD8)]),
    ("CLI", [("Implied", 0x58)]),
    ("CLV", [("Implied", 0xB8)]),
    ("CMP", [("Immediate", 0xC9), ("ZeroPage", 0xC5), ("ZeroPageX", 0xD5), ("Absolute", 0xCD),
      ("AbsoluteX", 0xDD), ("AbsoluteY", 0xD9), ("IndirectX", 0xC1), ("IndirectY", 0xD1)]),
    ("CPX", [("Immediate", 0xE0), ("ZeroPage", 0xE4), ("Absolute", 0xEC)]),
    ("CPY", [("Immediate", 0xC0), ("ZeroPage", 0xC4), ("Absolute", 0xCC)]),
    ("DEC", [("ZeroPage", 0xC6), ("ZeroPageX", 0xD6), ("Absolute", 0xCE), ("AbsoluteX", 0xDE)]),
    ("DEX", [("Implied", 0xCA)]),
    ("DEY", [("Implied", 0x88)]),
    ("EOR", [("Immediate", 0x49), ("ZeroPage", 0x45), ("ZeroPageX", 0x55), ("Absolute", 0x4D),
      ("AbsoluteX", 0x5D), ("AbsoluteY", 0x59), ("IndirectX", 0x41), ("IndirectY", 0x51)]),
    ("INC", [("ZeroPage", 0xE6), ("ZeroPageX", 0xF6), ("Absolute", 0xEE), ("AbsoluteX", 0xFE)]),
    ("INX", [("Implied", 0xE8)]),
    ("INY", [("Implied", 0xC8)]),
    ("JMP", [("Absolute", 0x4C), ("Indirect", 0x6C)]),
    ("JSR", [("Absolute", 0x20)]),
    ("LDA", [("Immediate", 0xA9), ("ZeroPage", 0xA5), ("ZeroPageX", 0xB5), ("Absolute", 0xAD),
      ("AbsoluteX", 0xBD), ("AbsoluteY", 0xB9), ("IndirectX", 0xA1), ("IndirectY", 0xB1)]),
    ("LDX", [("Immediate", 0xA2), ("ZeroPage", 0xA6), ("ZeroPageY", 0xB6), ("Absolute", 0xAE),
      ("AbsoluteY", 0xBE)]),
    ("LDY", [("Immediate", 0xA0), ("ZeroPage", 0xA4), ("ZeroPageX", 0xB4), ("Absolute", 0xAC),
      ("AbsoluteX", 0xBC)]),
    ("LSR", [("Accumulator", 0x4A), ("ZeroPage", 0x46), ("ZeroPageX", 0x56), ("Absolute", 0x4E),
      ("AbsoluteX", 0x5E)]),
    ("NOP", [("Implied", 0xEA)]),
    ("ORA", [("Immediate", 0x09), ("ZeroPage", 0x05), ("ZeroPageX", 0x15), ("Absolute", 0x0D),
      ("AbsoluteX", 0x1D), ("AbsoluteY", 0x19), ("IndirectX", 0x01), ("IndirectY", 0x11)]),
    ("PHA", [("Implied", 0x48)]),
    ("PHP", [("Implied", 0x08)]),
    ("PLA", [("Implied", 0x68)]),
    ("PLP", [("Implied", 0x28)]),
    ("ROL", [("Accumulator", 0x2A), ("ZeroPage", 0x26), ("ZeroPageX", 0x36), ("Absolute", 0x2E),
      ("AbsoluteX", 0x3E)]),
    ("ROR", [("Accumulator", 0x6A), ("ZeroPage", 0x66), ("ZeroPageX", 0x76), ("Absolute", 0x6E),
      ("AbsoluteX", 0x7E)]),
    ("RTI", [("Implied", 0x40)]),
    ("RTS", [("Implied", 0x60)]),
    ("SBC", [("Immediate", 0xE9), ("ZeroPage", 0xE5), ("ZeroPageX", 0xF5), ("Absolute", 0xED),
      ("AbsoluteX", 0xFD), ("AbsoluteY", 0xF9), ("IndirectX", 0xE1), ("IndirectY", 0xF1)]),
    ("SEC", [("Implied", 0x38)]),
    ("SED", [("Implied", 0xF8)]),
    ("SEI", [("Implied", 0x78)]),
    ("STA", [("ZeroPage", 0x85), ("ZeroPageX", 0x95), ("Absolute", 0x8D), ("AbsoluteX", 0x9D),
      ("AbsoluteY", 0x99), ("IndirectX", 0x81), ("IndirectY", 0x91)]),
    ("STX", [("ZeroPage", 0x86), ("ZeroPageY", 0x96), ("Absolute", 0x8E)]),
    ("STY", [("ZeroPage", 0x84), ("ZeroPageX", 0x94), ("Absolute", 0x8C)]),
    ("TAX", [("Implied", 0xAA)]),
    ("TAY", [("Implied", 0xA8)]),
    ("TSX", [("Implied", 0xBA)]),
    ("TXA", [("Implied", 0x8A)]),
    ("TXS", [("Implied", 0x9A)]),
    ("TYA", [("Implied", 0x98)]) ]

/-- The name of the instruction that an opcode stands for, and of its mode. -/
def names? (opcode : Nat) : Option (String × String) :=
  chart.findSome? fun (name, modes) =>
    (modes.find? fun (_, code) => code = opcode).map fun (mode, _) => (name, mode)

/-! ## Numbers -/

namespace Text

theorem hexDigit_eq {n : Nat} (h : n < 16) :
    hexDigit n = "0123456789ABCDEF".toList.getD n ' ' := by
  have hall : ∀ n < 16, hexDigit n = "0123456789ABCDEF".toList.getD n ' ' := by decide
  exact hall n h

theorem hexByte_eq (b : Byte) : hexByte b = hex 2 b.toNat := by
  have hb := b.isLt
  have hhigh : b.toNat / 16 % 16 = b.toNat / 16 := by omega
  rw [hexByte, hexDigit_eq (by omega), hexDigit_eq (by omega), hex]
  simp only [hexDigits, hhigh, List.nil_append, List.cons_append]

theorem hexWord_eq (w : Word) : hexWord w = hex 4 w.toNat := by
  have hw := w.isLt
  have h₃ : w.toNat / 16 / 16 / 16 % 16 = w.toNat / 256 / 16 % 16 := by omega
  have h₂ : w.toNat / 16 / 16 % 16 = w.toNat / 256 % 16 := by omega
  have h₁ : w.toNat / 16 % 16 = w.toNat % 256 / 16 % 16 := by omega
  have h₀ : w.toNat % 16 = w.toNat % 256 % 16 := by omega
  rw [hexWord, hexByte_eq, hexByte_eq, Word.toNat_high, Word.toNat_low, hex, hex, hex,
    ← String.ofList_append]
  simp only [hexDigits, List.nil_append, List.cons_append, h₃, h₂, h₁, h₀]

end Text

/-! ## Names -/

/-- The chart names every documented opcode as the instruction set does. -/
theorem names?_of_mem : ∀ e ∈ instructionSet,
    names? e.opcode.toNat = some (e.instruction.mnemonic, e.instruction.mode.name) := by
  decide +kernel

/-- The chart has no other opcodes. -/
theorem exists_opcode_eq_of_mem_chart :
    ∀ row ∈ chart, ∀ entry ∈ row.2, ∃ e ∈ instructionSet, e.opcode.toNat = entry.2 := by
  decide +kernel

/-- The chart has the names of what an opcode is decoded to, and no others. -/
theorem names?_eq_decode (b : Byte) :
    names? b.toNat =
      (decode b).map fun e => (e.instruction.mnemonic, e.instruction.mode.name) := by
  cases h : decode b with
  | some e =>
    rw [← opcode_of_decode h]
    exact names?_of_mem e (mem_of_decode h)
  | none =>
    rw [Option.map_none, names?, List.findSome?_eq_none_iff]
    intro row hrow
    rw [Option.map_eq_none_iff, List.find?_eq_none]
    intro entry hentry hcode
    obtain ⟨e, he, hopcode⟩ := exists_opcode_eq_of_mem_chart row hrow entry hentry
    have hb : e.opcode = b := BitVec.eq_of_toNat_eq (hopcode.trans (of_decide_eq_true hcode))
    exact List.find?_eq_none.mp h e he (beq_iff_eq.mpr hb)

theorem Instruction.mnemonic_eq_brk_iff {i : Instruction} : i.mnemonic = "BRK" ↔ i = .brk := by
  constructor
  · intro h
    have hoperation : i.operation = .brk := Operation.mnemonic_inj h
    cases i <;> cases hoperation
    rfl
  · rintro rfl
    rfl

/-! ## Events -/

namespace Event

theorem line_executed (t : Trace) : (executed t).line =
    traceLine t.address.toNat t.opcode.toNat t.instruction.mnemonic t.instruction.mode.name
      t.cycles t.registers := by
  unfold line message Trace.message level Level.name traceLine
  simp only [hexByte_eq, hexWord_eq, ← String.append_assoc]
  rfl

theorem line_brk (address : Word) : (brk address).line = breakLine address.toNat := by
  unfold line message level Level.name breakLine
  simp only [hexWord_eq, ← String.append_assoc]
  rfl

theorem line_illegalOpcode (opcode : Byte) (address : Word) (policy : IllegalPolicy) :
    (illegalOpcode opcode address policy).line =
      warningLine opcode.toNat address.toNat
        ++ if policy = .skip then " skipped as NOP" else "" := by
  unfold line
  rw [message_illegalOpcode]
  unfold level Level.name warningLine
  simp only [hexByte_eq, hexWord_eq, ← String.append_assoc]
  rfl

end Event

end M6502
