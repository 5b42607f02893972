import M6502.Event
import M6502.Text.Describe
import M6502.Text.Hex

/-!
# Lines of the log

The wording of faults and events. A line starts with the level of its event. Addresses and bytes
are written in hexadecimal, with a dollar sign where they stand by themselves.

## Main definitions

* `Fault.message` — what a fault says.
* `Event.level`, `Event.message`, `Event.line` — an event in the log.
-/

namespace M6502

open Text

private def illegalOpcodeText (opcode : Byte) (address : Word) : String :=
  "illegal opcode $" ++ hexByte opcode ++ " at $" ++ hexWord address

def Fault.message : Fault → String
  | illegalOpcode opcode address => illegalOpcodeText opcode address

/-- How much an event matters. -/
inductive Level where
  | error
  | warn
  | debug
  | trace
deriving DecidableEq, Repr

def Level.name : Level → String
  | error => "ERROR"
  | warn => "WARN"
  | debug => "DEBUG"
  | trace => "TRACE"

/-- What the log says of an executed instruction: where it stood, its opcode, its name and mode,
what it cost, and the registers after it. -/
def Trace.message (t : Trace) : String :=
  "$" ++ hexWord t.address ++ "  " ++ hexByte t.opcode ++ "  " ++ t.instruction.mnemonic ++ " "
    ++ t.instruction.mode.name ++ "  cyc=" ++ Nat.repr t.cycles
    ++ "  A=" ++ hexByte t.registers.a ++ " X=" ++ hexByte t.registers.x
    ++ " Y=" ++ hexByte t.registers.y ++ " SP=" ++ hexWord t.registers.sp
    ++ " P=" ++ hexByte t.registers.status.bits

namespace Event

def level : Event → Level
  | created _ | reset .. | brk _ => .debug
  | executed _ => .trace
  | illegalOpcode .. => .warn
  | unclaimed .. => .error

def message : Event → String
  | created config => "cpu created with " ++ config.describe
  | reset pc sp => "cpu reset: PC=$" ++ hexWord pc ++ " SP=$" ++ hexWord sp
  | brk address => "BRK at $" ++ hexWord address
  | executed trace => trace.message
  | illegalOpcode opcode address .fault => illegalOpcodeText opcode address
  | illegalOpcode opcode address .skip => illegalOpcodeText opcode address ++ " skipped as NOP"
  | unclaimed opcode address =>
    "decoded opcode $" ++ hexByte opcode ++ " at $" ++ hexWord address ++ " has no handler"

def line (e : Event) : String := e.level.name ++ " " ++ e.message

/-- An undocumented opcode is reported in the same words under both policies, and what was done
with it behind them. -/
theorem message_illegalOpcode (opcode : Byte) (address : Word) (policy : IllegalPolicy) :
    (illegalOpcode opcode address policy).message =
      "illegal opcode $" ++ (hexByte opcode ++ (" at $" ++ (hexWord address ++
        if policy = .skip then " skipped as NOP" else ""))) := by
  unfold message illegalOpcodeText
  cases policy <;> simp [String.append_assoc]

end Event

end M6502
