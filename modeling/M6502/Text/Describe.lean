import M6502.Cpu
import M6502.Text.Hex
import M6502.Text.Record

/-!
# Descriptions

The values of the library written out for a person who looks into a running machine. Numbers are
decimal, and a record shows all of its fields in order.

## Main definitions

* `Status.describe`, `Registers.describe`, `Memory.describe`, `Config.describe`, `Cpu.describe`,
  `Fault.describe` — the text of a value.
-/

namespace M6502

open Text

def Flag.name : Flag → String
  | carry => "CARRY"
  | zero => "ZERO"
  | irqDisable => "IRQ_DISABLE"
  | decimal => "DECIMAL"
  | overflow => "OVERFLOW"
  | negative => "NEGATIVE"

/-- The set flags, and after them all other set bits as one number. A status without any set bit is
the number zero. -/
def Status.describe (s : Status) : String :=
  let other := s.bits &&& ~~~flagBits
  let names := s.flags.map (·.name)
  let parts := if names = [] ∨ other ≠ 0 then names ++ [hexNumber other.toNat] else names
  "Status(" ++ String.intercalate " | " parts ++ ")"

/-- All registers. -/
def Registers.describe (r : Registers) : String :=
  record "CpuState"
    [field "a" (Nat.repr r.a.toNat), field "x" (Nat.repr r.x.toNat),
      field "y" (Nat.repr r.y.toNat), field "sp" (Nat.repr r.sp.toNat),
      field "pc" (Nat.repr r.pc.toNat), field "status" r.status.describe,
      field "irq_pending" (truth r.irqPending), field "nmi_pending" (truth r.nmiPending)]

/-- The size of a memory, and how much of it is in use. -/
def Memory.describe (m : Memory) : String :=
  record "Memory"
    [field "size" (Nat.repr size), field "non_zero_bytes" (Nat.repr m.used)]

def IllegalPolicy.describe : IllegalPolicy → String
  | fault => "Fault"
  | skip => "Nop"

def ByteOrder.describe : ByteOrder → String
  | highFirst => "HighFirst"
  | lowFirst => "LowFirst"

def Config.describe (c : Config) : String :=
  record "CpuConfig"
    [field "illegal_opcodes" c.policy.describe, field "operand_order" c.order.describe]

def Cpu.describe (c : Cpu) : String :=
  record "Cpu"
    [field "state" c.machine.registers.describe, field "memory" c.machine.memory.describe,
      field "config" c.config.describe]

def Fault.describe : Fault → String
  | illegalOpcode opcode address =>
    record "IllegalOpcode"
      [field "opcode" (Nat.repr opcode.toNat), field "pc" (Nat.repr address.toNat)]

end M6502
