import M6502.Event
import M6502.Instruction.Operation
import M6502.Machine
import M6502.Mode

/-!
# Families of operations

Operations that are carried out alike form a family. A family is handed an operation and the operand
that was resolved for it, on a machine whose program counter stands past the whole instruction. It
says what comes of the operation, or it declines: an operation of another family, or an operand of a
shape that the operation does not work on. The eight families are asked in turn, and the first that
does not decline carries the operation out.

## Main definitions

* `Operand.byte?`, `Operand.place?` — what an operand lets be read, and what it lets be changed.
* `StackOp.apply`, `Machine.modify`, `Machine.call`, `Machine.leave`, `Machine.resume`,
  `Machine.branch` — what the operations on more than registers do.
* `Family`, `Family.all` — the families, in the order in which they are asked.
* `Operation.perform?` — what comes of an operation with a given operand.
-/

namespace M6502

/-! ## Operands -/

/-- What an operation can change in place. -/
inductive Place where
  | accumulator
  | cell (a : Word)
deriving DecidableEq, Repr

/-- The byte that an operand lets be read. -/
def Operand.byte? (m : Machine) : Operand → Option Byte
  | immediate value => some value
  | address cell => some (m.memory.read cell)
  | accumulator => some m.registers.a
  | none | relative _ => .none

/-- The place that an operand lets be changed. -/
def Operand.place? : Operand → Option Place
  | accumulator => some .accumulator
  | address a => some (.cell a)
  | none | immediate _ | relative _ => .none

namespace Machine

def get (m : Machine) : Place → Byte
  | .accumulator => m.registers.a
  | .cell a => m.memory.read a

def put (m : Machine) (v : Byte) : Place → Machine
  | .accumulator => { m with registers := { m.registers with a := v } }
  | .cell a => { m with memory := m.memory.write a v }

def goto (m : Machine) (a : Word) : Machine := { m with registers := { m.registers with pc := a } }

def apply (m : Machine) (e : Effect) : Machine := { m with registers := m.registers.apply e }

/-! ## Operations on more than registers -/

/-- Changes the byte at a place. The carry goes into the byte before it takes the bit that is
moved out. -/
def modify (m : Machine) (op : ModifyOp) (p : Place) : Machine :=
  let old := m.get p
  let carry := m.registers.status.has .carry
  (m.apply (op.effect old carry)).put (op.value old carry) p

/-- Calls the subroutine at an address. What is pushed is the address of the last byte of the
instruction, which the program counter has just passed. -/
def call (m : Machine) (target : Word) : Machine :=
  (m.pushWord (m.registers.pc - 1)).goto target

/-- Returns from a subroutine. -/
def leave (m : Machine) : Machine :=
  let (last, r) := m.registers.pullWord m.memory
  { m with registers := r }.goto (last + 1)

/-- Returns from an interrupt. -/
def resume (m : Machine) : Machine :=
  let (status, r) := m.registers.pull m.memory
  let (target, r) := (r.setStatus (.ofPulledByte status)).pullWord m.memory
  { m with registers := r }.goto target

/-- Goes on at a distance from the next instruction, if the branch is taken. -/
def branch (m : Machine) (op : BranchOp) (offset : Byte) : Machine :=
  if op.taken m.registers.status then m.goto (m.registers.pc + .ofSigned offset) else m

/-- The cycles that a branch adds. -/
def branchExtra (m : Machine) (op : BranchOp) (offset : Byte) : Nat :=
  branchCycles (op.taken m.registers.status) m.registers.pc
    (m.registers.pc + .ofSigned offset)

end Machine

/-- Moves one byte between a register and the stack. -/
def StackOp.apply (op : StackOp) (m : Machine) : Machine :=
  match op with
  | pha => m.push m.registers.a
  | php => m.push m.registers.status.pushedByte
  | pla =>
    let (v, r) := m.registers.pull m.memory
    { m with registers := r.loadA v }
  | plp =>
    let (v, r) := m.registers.pull m.memory
    { m with registers := r.setStatus (.ofPulledByte v) }

/-! ## Families -/

/-- What came of an operation. -/
structure Performed where
  machine : Machine
  /-- The cycles that are added to the base time, other than for a crossed page. -/
  extra : Nat := 0
  log : Array Event := #[]

/-- What comes of an operation with its operand; nothing, if the family declines. -/
abbrev Family := Operation → Operand → Machine → Option Performed

namespace Family

/-- The operations among `ops`, which read a byte. -/
def reads (ops : List ReadOp) : Family
  | .read op, operand, m =>
    if op ∈ ops then
      (operand.byte? m).map fun v => { machine := { m with registers := op.apply v m.registers } }
    else none
  | _, _, _ => none

/-- Stores, which write a data cell and never read it. -/
def stores : Family
  | .write op, .address a, m =>
    some { machine := { m with memory := m.memory.write a (op.value m.registers) } }
  | _, _, _ => none

def loadStore : Family := fun op operand m =>
  reads [.lda, .ldx, .ldy] op operand m <|> stores op operand m

/-- Operations on the bits of a byte. -/
def logic : Family := reads [.and, .ora, .eor, .bit]

def arithmetic : Family := reads [.adc, .sbc]

def comparison : Family := reads [.cmp, .cpx, .cpy]

def branches : Family
  | .branch op, .relative offset, m =>
    some { machine := m.branch op offset, extra := m.branchExtra op offset }
  | _, _, _ => none

/-- Changes in place. Only shifts and rotations work on the accumulator. -/
def changes : Family
  | .modify op, operand, m =>
    match op, operand with
    | .inc, .address a => some { machine := m.modify .inc (.cell a) }
    | .dec, .address a => some { machine := m.modify .dec (.cell a) }
    | .inc, _ | .dec, _ => none
    | .asl, _ | .lsr, _ | .rol, _ | .ror, _ =>
      operand.place?.map fun p => { machine := m.modify op p }
  | _, _, _ => none

/-- Jumps, calls, returns and the software interrupt, which only passes over the byte after it. -/
def flow : Family
  | .jmp, .address target, m => some { machine := m.goto target }
  | .jsr, .address target, m => some { machine := m.call target }
  | .rts, _, m => some { machine := m.leave }
  | .rti, _, m => some { machine := m.resume }
  | .brk, _, m =>
    some { machine := m.goto (m.registers.pc + 1), log := #[.brk (m.registers.pc - 1)] }
  | _, _, _ => none

/-- Operations on registers and the stack, which have no operand to look at. -/
def implied : Family
  | .register op, _, m => some { machine := { m with registers := op.apply m.registers } }
  | .stack op, _, m => some { machine := op.apply m }
  | _, _, _ => none

/-- The families, in the order in which they are asked. -/
def all : List Family :=
  [loadStore, logic, arithmetic, comparison, branches, changes, flow, implied]

end Family

/-- What comes of an operation with its operand; nothing, if every family declines. -/
def Operation.perform? (op : Operation) (operand : Operand) (m : Machine) : Option Performed :=
  Family.all.findSome? fun family => family op operand m

/-! ## What comes of each kind of operation -/

namespace Operation

variable (m : Machine)

/-- Whichever family it belongs to, a reading operation is carried out on any operand that lets a
byte be read. -/
theorem perform?_read (op : ReadOp) (operand : Operand) :
    (read op).perform? operand m = (operand.byte? m).map fun v =>
      { machine := { m with registers := op.apply v m.registers } } := by
  cases op <;> cases operand <;> rfl

theorem perform?_write (op : WriteOp) (a : Word) :
    (write op).perform? (.address a) m =
      some { machine := { m with memory := m.memory.write a (op.value m.registers) } } := rfl

/-- Every change in place is carried out on a data cell. -/
theorem perform?_modify (op : ModifyOp) (a : Word) :
    (modify op).perform? (.address a) m = some { machine := m.modify op (.cell a) } := by
  cases op <;> rfl

theorem perform?_register (op : RegisterOp) (operand : Operand) :
    (register op).perform? operand m =
      some { machine := { m with registers := op.apply m.registers } } := rfl

theorem perform?_stack (op : StackOp) (operand : Operand) :
    (stack op).perform? operand m = some { machine := op.apply m } := rfl

theorem perform?_branch (op : BranchOp) (offset : Byte) :
    (branch op).perform? (.relative offset) m =
      some { machine := m.branch op offset, extra := m.branchExtra op offset } := rfl

end Operation

end M6502
