import M6502.Instruction

/-!
# The instruction set

The opcode byte of every documented instruction, and the cycles it takes before anything is added
for a crossed page or a branch that is taken. The 105 bytes that do not occur here are
undocumented.

## Main definitions

* `Encoding` — a documented opcode.
* `instructionSet` — all of them, in the order of their bytes.
* `decode` — the instruction that an opcode byte stands for.
-/

namespace M6502

/-- A documented opcode: its byte, the instruction it stands for, and the cycles that instruction
takes at least. -/
structure Encoding where
  opcode : Byte
  instruction : Instruction
  cycles : Nat
deriving DecidableEq, Repr

/-- The documented opcodes, in the order of their bytes. -/
def instructionSet : List Encoding :=
  [ ⟨0x00, .brk, 7⟩,
    ⟨0x01, .read .ora (.data .indirectX), 6⟩,
    ⟨0x05, .read .ora (.data .zeroPage), 3⟩,
    ⟨0x06, .modify .asl (.data .zeroPage), 5⟩,
    ⟨0x08, .stack .php, 3⟩,
    ⟨0x09, .read .ora .immediate, 2⟩,
    ⟨0x0A, .modify .asl .accumulator, 2⟩,
    ⟨0x0D, .read .ora (.data .absolute), 4⟩,
    ⟨0x0E, .modify .asl (.data .absolute), 6⟩,
    ⟨0x10, .branch .bpl, 2⟩,
    ⟨0x11, .read .ora (.data .indirectY), 5⟩,
    ⟨0x15, .read .ora (.data .zeroPageX), 4⟩,
    ⟨0x16, .modify .asl (.data .zeroPageX), 6⟩,
    ⟨0x18, .register .clc, 2⟩,
    ⟨0x19, .read .ora (.data .absoluteY), 4⟩,
    ⟨0x1D, .read .ora (.data .absoluteX), 4⟩,
    ⟨0x1E, .modify .asl (.data .absoluteX), 7⟩,
    ⟨0x20, .jsr, 6⟩,
    ⟨0x21, .read .and (.data .indirectX), 6⟩,
    ⟨0x24, .read .bit (.data .zeroPage), 3⟩,
    ⟨0x25, .read .and (.data .zeroPage), 3⟩,
    ⟨0x26, .modify .rol (.data .zeroPage), 5⟩,
    ⟨0x28, .stack .plp, 4⟩,
    ⟨0x29, .read .and .immediate, 2⟩,
    ⟨0x2A, .modify .rol .accumulator, 2⟩,
    ⟨0x2C, .read .bit (.data .absolute), 4⟩,
    ⟨0x2D, .read .and (.data .absolute), 4⟩,
    ⟨0x2E, .modify .rol (.data .absolute), 6⟩,
    ⟨0x30, .branch .bmi, 2⟩,
    ⟨0x31, .read .and (.data .indirectY), 5⟩,
    ⟨0x35, .read .and (.data .zeroPageX), 4⟩,
    ⟨0x36, .modify .rol (.data .zeroPageX), 6⟩,
    ⟨0x38, .register .sec, 2⟩,
    ⟨0x39, .read .and (.data .absoluteY), 4⟩,
    ⟨0x3D, .read .and (.data .absoluteX), 4⟩,
    ⟨0x3E, .modify .rol (.data .absoluteX), 7⟩,
    ⟨0x40, .rti, 6⟩,
    ⟨0x41, .read .eor (.data .indirectX), 6⟩,
    ⟨0x45, .read .eor (.data .zeroPage), 3⟩,
    ⟨0x46, .modify .lsr (.data .zeroPage), 5⟩,
    ⟨0x48, .stack .pha, 3⟩,
    ⟨0x49, .read .eor .immediate, 2⟩,
    ⟨0x4A, .modify .lsr .accumulator, 2⟩,
    ⟨0x4C, .jmp .absolute, 3⟩,
    ⟨0x4D, .read .eor (.data .absolute), 4⟩,
    ⟨0x4E, .modify .lsr (.data .absolute), 6⟩,
    ⟨0x50, .branch .bvc, 2⟩,
    ⟨0x51, .read .eor (.data .indirectY), 5⟩,
    ⟨0x55, .read .eor (.data .zeroPageX), 4⟩,
    ⟨0x56, .modify .lsr (.data .zeroPageX), 6⟩,
    ⟨0x58, .register .cli, 2⟩,
    ⟨0x59, .read .eor (.data .absoluteY), 4⟩,
    ⟨0x5D, .read .eor (.data .absoluteX), 4⟩,
    ⟨0x5E, .modify .lsr (.data .absoluteX), 7⟩,
    ⟨0x60, .rts, 6⟩,
    ⟨0x61, .read .adc (.data .indirectX), 6⟩,
    ⟨0x65, .read .adc (.data .zeroPage), 3⟩,
    ⟨0x66, .modify .ror (.data .zeroPage), 5⟩,
    ⟨0x68, .stack .pla, 4⟩,
    ⟨0x69, .read .adc .immediate, 2⟩,
    ⟨0x6A, .modify .ror .accumulator, 2⟩,
    ⟨0x6C, .jmp .indirect, 5⟩,
    ⟨0x6D, .read .adc (.data .absolute), 4⟩,
    ⟨0x6E, .modify .ror (.data .absolute), 6⟩,
    ⟨0x70, .branch .bvs, 2⟩,
    ⟨0x71, .read .adc (.data .indirectY), 5⟩,
    ⟨0x75, .read .adc (.data .zeroPageX), 4⟩,
    ⟨0x76, .modify .ror (.data .zeroPageX), 6⟩,
    ⟨0x78, .register .sei, 2⟩,
    ⟨0x79, .read .adc (.data .absoluteY), 4⟩,
    ⟨0x7D, .read .adc (.data .absoluteX), 4⟩,
    ⟨0x7E, .modify .ror (.data .absoluteX), 7⟩,
    ⟨0x81, .write .sta .indirectX, 6⟩,
    ⟨0x84, .write .sty .zeroPage, 3⟩,
    ⟨0x85, .write .sta .zeroPage, 3⟩,
    ⟨0x86, .write .stx .zeroPage, 3⟩,
    ⟨0x88, .register .dey, 2⟩,
    ⟨0x8A, .register .txa, 2⟩,
    ⟨0x8C, .write .sty .absolute, 4⟩,
    ⟨0x8D, .write .sta .absolute, 4⟩,
    ⟨0x8E, .write .stx .absolute, 4⟩,
    ⟨0x90, .branch .bcc, 2⟩,
    ⟨0x91, .write .sta .indirectY, 6⟩,
    ⟨0x94, .write .sty .zeroPageX, 4⟩,
    ⟨0x95, .write .sta .zeroPageX, 4⟩,
    ⟨0x96, .write .stx .zeroPageY, 4⟩,
    ⟨0x98, .register .tya, 2⟩,
    ⟨0x99, .write .sta .absoluteY, 5⟩,
    ⟨0x9A, .register .txs, 2⟩,
    ⟨0x9D, .write .sta .absoluteX, 5⟩,
    ⟨0xA0, .read .ldy .immediate, 2⟩,
    ⟨0xA1, .read .lda (.data .indirectX), 6⟩,
    ⟨0xA2, .read .ldx .immediate, 2⟩,
    ⟨0xA4, .read .ldy (.data .zeroPage), 3⟩,
    ⟨0xA5, .read .lda (.data .zeroPage), 3⟩,
    ⟨0xA6, .read .ldx (.data .zeroPage), 3⟩,
    ⟨0xA8, .register .tay, 2⟩,
    ⟨0xA9, .read .lda .immediate, 2⟩,
    ⟨0xAA, .register .tax, 2⟩,
    ⟨0xAC, .read .ldy (.data .absolute), 4⟩,
    ⟨0xAD, .read .lda (.data .absolute), 4⟩,
    ⟨0xAE, .read .ldx (.data .absolute), 4⟩,
    ⟨0xB0, .branch .bcs, 2⟩,
    ⟨0xB1, .read .lda (.data .indirectY), 5⟩,
    ⟨0xB4, .read .ldy (.data .zeroPageX), 4⟩,
    ⟨0xB5, .read .lda (.data .zeroPageX), 4⟩,
    ⟨0xB6, .read .ldx (.data .zeroPageY), 4⟩,
    ⟨0xB8, .register .clv, 2⟩,
    ⟨0xB9, .read .lda (.data .absoluteY), 4⟩,
    ⟨0xBA, .register .tsx, 2⟩,
    ⟨0xBC, .read .ldy (.data .absoluteX), 4⟩,
    ⟨0xBD, .read .lda (.data .absoluteX), 4⟩,
    ⟨0xBE, .read .ldx (.data .absoluteY), 4⟩,
    ⟨0xC0, .read .cpy .immediate, 2⟩,
    ⟨0xC1, .read .cmp (.data .indirectX), 6⟩,
    ⟨0xC4, .read .cpy (.data .zeroPage), 3⟩,
    ⟨0xC5, .read .cmp (.data .zeroPage), 3⟩,
    ⟨0xC6, .modify .dec (.data .zeroPage), 5⟩,
    ⟨0xC8, .register .iny, 2⟩,
    ⟨0xC9, .read .cmp .immediate, 2⟩,
    ⟨0xCA, .register .dex, 2⟩,
    ⟨0xCC, .read .cpy (.data .absolute), 4⟩,
    ⟨0xCD, .read .cmp (.data .absolute), 4⟩,
    ⟨0xCE, .modify .dec (.data .absolute), 6⟩,
    ⟨0xD0, .branch .bne, 2⟩,
    ⟨0xD1, .read .cmp (.data .indirectY), 5⟩,
    ⟨0xD5, .read .cmp (.data .zeroPageX), 4⟩,
    ⟨0xD6, .modify .dec (.data .zeroPageX), 6⟩,
    ⟨0xD8, .register .cld, 2⟩,
    ⟨0xD9, .read .cmp (.data .absoluteY), 4⟩,
    ⟨0xDD, .read .cmp (.data .absoluteX), 4⟩,
    ⟨0xDE, .modify .dec (.data .absoluteX), 7⟩,
    ⟨0xE0, .read .cpx .immediate, 2⟩,
    ⟨0xE1, .read .sbc (.data .indirectX), 6⟩,
    ⟨0xE4, .read .cpx (.data .zeroPage), 3⟩,
    ⟨0xE5, .read .sbc (.data .zeroPage), 3⟩,
    ⟨0xE6, .modify .inc (.data .zeroPage), 5⟩,
    ⟨0xE8, .register .inx, 2⟩,
    ⟨0xE9, .read .sbc .immediate, 2⟩,
    ⟨0xEA, .register .nop, 2⟩,
    ⟨0xEC, .read .cpx (.data .absolute), 4⟩,
    ⟨0xED, .read .sbc (.data .absolute), 4⟩,
    ⟨0xEE, .modify .inc (.data .absolute), 6⟩,
    ⟨0xF0, .branch .beq, 2⟩,
    ⟨0xF1, .read .sbc (.data .indirectY), 5⟩,
    ⟨0xF5, .read .sbc (.data .zeroPageX), 4⟩,
    ⟨0xF6, .modify .inc (.data .zeroPageX), 6⟩,
    ⟨0xF8, .register .sed, 2⟩,
    ⟨0xF9, .read .sbc (.data .absoluteY), 4⟩,
    ⟨0xFD, .read .sbc (.data .absoluteX), 4⟩,
    ⟨0xFE, .modify .inc (.data .absoluteX), 7⟩ ]

/-- What an opcode byte stands for; nothing, if it is undocumented. -/
def decode (opcode : Byte) : Option Encoding := instructionSet.find? (·.opcode == opcode)

theorem mem_of_decode {b : Byte} {e : Encoding} (h : decode b = some e) : e ∈ instructionSet :=
  List.mem_of_find?_eq_some h

theorem opcode_of_decode {b : Byte} {e : Encoding} (h : decode b = some e) : e.opcode = b := by
  simpa using List.find?_some h

end M6502
