import M6502.Mode
import M6502.Timing

/-!
# Instructions

The documented instructions, by the shape of what they work on. The shape is part of the type: a
store has a data cell and nothing else, a branch a distance, and a shift the accumulator or a data
cell. What is left of an instruction without the place of its operand is its operation; there is
one operation for each mnemonic.

## Main definitions

* `Operation` — what an instruction does, wherever its operand is.
* `Operation.access`, `Operation.mnemonic` — how it treats its data cell, and its name.
* `Instruction` — an operation with the place of its operand.
* `Instruction.operation`, `Instruction.mode`, `Instruction.length` — its operation, its addressing
  mode, and the bytes it takes.
-/

namespace M6502

/-- Operations that read one byte. -/
inductive ReadOp where
  | lda | ldx | ldy
  | adc | sbc
  | and | ora | eor | bit
  | cmp | cpx | cpy
deriving DecidableEq, Repr

/-- Operations that write a register to a data cell. -/
inductive WriteOp where
  | sta | stx | sty
deriving DecidableEq, Repr

/-- Operations that change a byte in place. -/
inductive ModifyOp where
  | asl | lsr | rol | ror
  | inc | dec
deriving DecidableEq, Repr

/-- Operations that work on registers alone. -/
inductive RegisterOp where
  | tax | tay | txa | tya | tsx | txs
  | inx | iny | dex | dey
  | clc | sec | cli | sei | clv | cld | sed
  | nop
deriving DecidableEq, Repr

/-- Operations that move one byte between a register and the stack. -/
inductive StackOp where
  | pha | php | pla | plp
deriving DecidableEq, Repr

/-- Conditional branches, each on one flag. -/
inductive BranchOp where
  | bpl | bmi | bvc | bvs | bcc | bcs | bne | beq
deriving DecidableEq, Repr

/-- What an instruction does, wherever its operand is. -/
inductive Operation where
  | read (op : ReadOp)
  | write (op : WriteOp)
  | modify (op : ModifyOp)
  | register (op : RegisterOp)
  | stack (op : StackOp)
  | branch (op : BranchOp)
  | jmp
  | jsr
  | rts
  | rti
  | brk
deriving DecidableEq, Repr

/-- Where an operation reads its byte. -/
inductive Source where
  | immediate
  | data (mode : DataMode)
deriving DecidableEq, Repr

/-- Where an operation changes a byte in place. -/
inductive Target where
  | accumulator
  | data (mode : DataMode)
deriving DecidableEq, Repr

/-- Where a jump finds the address it leads to. -/
inductive JumpMode where
  /-- In the instruction. -/
  | absolute
  /-- In the vector that the instruction names. -/
  | indirect
deriving DecidableEq, Repr

/-- The documented instructions. -/
inductive Instruction where
  | read (op : ReadOp) (source : Source)
  | write (op : WriteOp) (mode : DataMode)
  | modify (op : ModifyOp) (target : Target)
  | register (op : RegisterOp)
  | stack (op : StackOp)
  | branch (op : BranchOp)
  | jmp (mode : JumpMode)
  | jsr
  | rts
  | rti
  | brk
deriving DecidableEq, Repr

/-! ## Modes -/

def Source.mode : Source → Mode
  | immediate => .immediate
  | data mode => .data mode

def Target.mode : Target → Mode
  | accumulator => .accumulator
  | data mode => .data mode

def JumpMode.mode : JumpMode → Mode
  | absolute => .data .absolute
  | indirect => .indirect

namespace Instruction

def mode : Instruction → Mode
  | read _ source => source.mode
  | write _ mode => .data mode
  | modify _ target => target.mode
  | branch _ => .relative
  | jmp mode => mode.mode
  | jsr => .data .absolute
  | register _ | stack _ | rts | rti | brk => .implied

/-- The bytes an instruction takes in the instruction stream, its opcode included. -/
def length (i : Instruction) : Nat := 1 + i.mode.operandLength

def operation : Instruction → Operation
  | read op _ => .read op
  | write op _ => .write op
  | modify op _ => .modify op
  | register op => .register op
  | stack op => .stack op
  | branch op => .branch op
  | jmp _ => .jmp
  | jsr => .jsr
  | rts => .rts
  | rti => .rti
  | brk => .brk

end Instruction

/-! ## Operations -/

/-- What an operation does with its data cell. -/
def Operation.access : Operation → Access
  | read _ => .read
  | write _ => .write
  | modify _ => .readModifyWrite
  | register _ | stack _ | branch _ | jmp | jsr | rts | rti | brk => .other

def ReadOp.mnemonic : ReadOp → String
  | lda => "LDA" | ldx => "LDX" | ldy => "LDY"
  | adc => "ADC" | sbc => "SBC"
  | and => "AND" | ora => "ORA" | eor => "EOR" | bit => "BIT"
  | cmp => "CMP" | cpx => "CPX" | cpy => "CPY"

def WriteOp.mnemonic : WriteOp → String
  | sta => "STA" | stx => "STX" | sty => "STY"

def ModifyOp.mnemonic : ModifyOp → String
  | asl => "ASL" | lsr => "LSR" | rol => "ROL" | ror => "ROR"
  | inc => "INC" | dec => "DEC"

def RegisterOp.mnemonic : RegisterOp → String
  | tax => "TAX" | tay => "TAY" | txa => "TXA" | tya => "TYA" | tsx => "TSX" | txs => "TXS"
  | inx => "INX" | iny => "INY" | dex => "DEX" | dey => "DEY"
  | clc => "CLC" | sec => "SEC" | cli => "CLI" | sei => "SEI"
  | clv => "CLV" | cld => "CLD" | sed => "SED"
  | nop => "NOP"

def StackOp.mnemonic : StackOp → String
  | pha => "PHA" | php => "PHP" | pla => "PLA" | plp => "PLP"

def BranchOp.mnemonic : BranchOp → String
  | bpl => "BPL" | bmi => "BMI" | bvc => "BVC" | bvs => "BVS"
  | bcc => "BCC" | bcs => "BCS" | bne => "BNE" | beq => "BEQ"

/-- The name of an operation in assembly language. -/
def Operation.mnemonic : Operation → String
  | read op => op.mnemonic
  | write op => op.mnemonic
  | modify op => op.mnemonic
  | register op => op.mnemonic
  | stack op => op.mnemonic
  | branch op => op.mnemonic
  | jmp => "JMP"
  | jsr => "JSR"
  | rts => "RTS"
  | rti => "RTI"
  | brk => "BRK"

def Instruction.mnemonic (i : Instruction) : String := i.operation.mnemonic

def Instruction.access (i : Instruction) : Access := i.operation.access

end M6502
