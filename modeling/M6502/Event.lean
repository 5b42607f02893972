import M6502.Config
import M6502.Instruction
import M6502.Registers

/-!
# Events and faults

What a processor reports while it works. Events are values; their wording as lines of a log is a
matter of its own.

## Main definitions

* `Fault` — why a step can fail.
* `Event` — one entry of the log.
-/

namespace M6502

/-- Why a step can fail. -/
inductive Fault where
  /-- The byte at `address` is no documented opcode, and the configuration forbids it. -/
  | illegalOpcode (opcode : Byte) (address : Word)
deriving DecidableEq, Repr

/-- An executed instruction, as the log shows it. -/
structure Trace where
  address : Word
  opcode : Byte
  instruction : Instruction
  cycles : Nat
  registers : Registers
deriving DecidableEq, Repr

/-- One entry of the log. -/
inductive Event where
  | created (config : Config)
  /-- A processor was reset to these values of the program counter and the stack pointer. -/
  | reset (pc sp : Word)
  | brk (address : Word)
  | executed (trace : Trace)
  /-- An undocumented opcode was met, and handled as the policy says. -/
  | illegalOpcode (opcode : Byte) (address : Word) (policy : IllegalPolicy)
  /-- A documented opcode was met that nothing carries out. -/
  | unclaimed (opcode : Byte) (address : Word)
deriving DecidableEq, Repr

end M6502
