import M6502.Instruction
import M6502.Registers

/-!
# Operations

What each operation does to registers and bytes, apart from where its byte comes from or goes to.
Arithmetic is binary: the decimal flag is stored but never consulted.

## Main definitions

* `ReadOp.apply` — the registers after an operation has read a byte.
* `WriteOp.value` — the byte an operation writes.
* `ModifyOp.value`, `ModifyOp.effect` — the byte an operation makes of another, and its flags.
* `RegisterOp.apply` — the registers after an operation on registers.
* `BranchOp.taken` — whether a branch is taken.
-/

namespace M6502

namespace Registers

def loadA (r : Registers) (v : Byte) : Registers := { r with a := v }.apply (.value v)

def loadX (r : Registers) (v : Byte) : Registers := { r with x := v }.apply (.value v)

def loadY (r : Registers) (v : Byte) : Registers := { r with y := v }.apply (.value v)

def addWithCarry (r : Registers) (v : Byte) : Registers :=
  let sum := r.a.toNat + v.toNat + r.status.carry
  { r with a := .ofNat 8 sum }.apply (.sum r.a v (.ofNat 8 sum) (decide (255 < sum)))

/-- Subtracts a byte from the accumulator, and one more if the carry is clear: the complement of
the byte is added with the carry. -/
def subtractWithBorrow (r : Registers) (v : Byte) : Registers := r.addWithCarry (~~~v)

def storeFlag (r : Registers) (f : Flag) (on : Bool) : Registers := r.storeFlags f.mask on

end Registers

def ReadOp.apply (op : ReadOp) (v : Byte) (r : Registers) : Registers :=
  match op with
  | lda => r.loadA v
  | ldx => r.loadX v
  | ldy => r.loadY v
  | adc => r.addWithCarry v
  | sbc => r.subtractWithBorrow v
  | and => r.loadA (r.a &&& v)
  | ora => r.loadA (r.a ||| v)
  | eor => r.loadA (r.a ^^^ v)
  | bit => r.apply (.test r.a v)
  | cmp => r.apply (.difference r.a v)
  | cpx => r.apply (.difference r.x v)
  | cpy => r.apply (.difference r.y v)

def WriteOp.value (op : WriteOp) (r : Registers) : Byte :=
  match op with
  | sta => r.a
  | stx => r.x
  | sty => r.y

namespace ModifyOp

/-- The byte an operation makes of `old`. A rotation moves `carry` into the byte. -/
def value (op : ModifyOp) (old : Byte) (carry : Bool) : Byte :=
  match op with
  | asl => old <<< 1
  | lsr => old >>> 1
  | rol => old <<< 1 ||| if carry then 0x01 else 0
  | ror => old >>> 1 ||| if carry then 0x80 else 0
  | inc => old + 1
  | dec => old - 1

/-- The flags of an operation. A shift or rotation moves the bit at one end of `old` out. -/
def effect (op : ModifyOp) (old : Byte) (carry : Bool) : Effect :=
  match op with
  | asl | rol => .shift (op.value old carry) old.msb
  | lsr | ror => .shift (op.value old carry) (old.getLsbD 0)
  | inc | dec => .value (op.value old carry)

end ModifyOp

def RegisterOp.apply (op : RegisterOp) (r : Registers) : Registers :=
  match op with
  | tax => r.loadX r.a
  | tay => r.loadY r.a
  | txa => r.loadA r.x
  | tya => r.loadA r.y
  | tsx => r.loadX r.sp.low
  | txs => r.setStackOffset r.x
  | inx => r.loadX (r.x + 1)
  | iny => r.loadY (r.y + 1)
  | dex => r.loadX (r.x - 1)
  | dey => r.loadY (r.y - 1)
  | clc => r.storeFlag .carry false
  | sec => r.storeFlag .carry true
  | cli => r.storeFlag .irqDisable false
  | sei => r.storeFlag .irqDisable true
  | clv => r.storeFlag .overflow false
  | cld => r.storeFlag .decimal false
  | sed => r.storeFlag .decimal true
  | nop => r

namespace BranchOp

def flag : BranchOp → Flag
  | bpl | bmi => .negative
  | bvc | bvs => .overflow
  | bcc | bcs => .carry
  | bne | beq => .zero

/-- The value of its flag at which a branch is taken. -/
def wanted : BranchOp → Bool
  | bmi | bvs | bcs | beq => true
  | bpl | bvc | bcc | bne => false

def taken (op : BranchOp) (s : Status) : Bool := s.has op.flag == op.wanted

end BranchOp

end M6502
