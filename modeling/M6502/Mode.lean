import M6502.Word

/-!
# Addressing modes

How an instruction names what it works on. Eight of the thirteen modes name a data cell of memory;
they are a type of their own, because loads, stores and changes in place take only these.

## Main definitions

* `DataMode` — the modes that name a data cell.
* `Mode`, `Mode.operandLength` — all modes, and how many bytes follow the opcode.
* `Operand` — what an instruction works on once its operand bytes are read.
-/

namespace M6502

/-- The modes that name a data cell in memory. -/
inductive DataMode where
  | zeroPage
  | zeroPageX
  | zeroPageY
  | absolute
  | absoluteX
  | absoluteY
  | indirectX
  | indirectY
deriving DecidableEq, Repr

def DataMode.operandLength : DataMode → Nat
  | zeroPage | zeroPageX | zeroPageY | indirectX | indirectY => 1
  | absolute | absoluteX | absoluteY => 2

inductive Mode where
  | implied
  | accumulator
  | immediate
  | data (mode : DataMode)
  /-- Through a vector in memory; of the documented instructions only a jump has it. -/
  | indirect
  | relative
deriving DecidableEq, Repr

namespace Mode

def all : List Mode :=
  [implied, accumulator, immediate, data .zeroPage, data .zeroPageX, data .zeroPageY,
    data .absolute, data .absoluteX, data .absoluteY, indirect, data .indirectX, data .indirectY,
    relative]

def operandLength : Mode → Nat
  | implied | accumulator => 0
  | immediate | relative => 1
  | data mode => mode.operandLength
  | indirect => 2

def name : Mode → String
  | implied => "Implied"
  | accumulator => "Accumulator"
  | immediate => "Immediate"
  | data .zeroPage => "ZeroPage"
  | data .zeroPageX => "ZeroPageX"
  | data .zeroPageY => "ZeroPageY"
  | data .absolute => "Absolute"
  | data .absoluteX => "AbsoluteX"
  | data .absoluteY => "AbsoluteY"
  | indirect => "Indirect"
  | data .indirectX => "IndirectX"
  | data .indirectY => "IndirectY"
  | relative => "Relative"

def ofName? (name : String) : Option Mode := all.find? (·.name == name)

theorem mem_all (mode : Mode) : mode ∈ all := by
  rcases mode with _ | _ | _ | mode | _ | _
  case data => cases mode <;> decide
  all_goals decide

end Mode

/-- What an instruction works on once its operand bytes are read. -/
inductive Operand where
  | none
  | accumulator
  | immediate (value : Byte)
  | address (cell : Word)
  /-- A distance to jump, as a two's-complement byte. -/
  | relative (offset : Byte)
deriving DecidableEq, Repr

end M6502
