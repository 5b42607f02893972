import M6502.Word

/-!
# Configuration

Two behaviours of a processor are chosen when it is built: what it does with an opcode that is not
documented, and the order in which the two bytes of a word stand in the instruction stream.

## Main definitions

* `IllegalPolicy`, `ByteOrder` — the two choices.
* `ByteOrder.word` — two bytes of the stream taken together.
* `Config` — both choices.
* `Config.standard`, `Config.hardware` — the choices made by default, and by real hardware.
* `Config.withPolicy`, `Config.withOrder` — one choice replaced.
-/

namespace M6502

/-- What happens at an opcode that is not documented. -/
inductive IllegalPolicy where
  /-- The step fails and changes nothing. -/
  | fault
  /-- The byte is passed over. -/
  | skip
deriving DecidableEq, Repr

/-- The order of the two bytes of a word in the instruction stream, and of the vector of an
indirect jump. -/
inductive ByteOrder where
  | highFirst
  | lowFirst
deriving DecidableEq, Repr

namespace ByteOrder

/-- The word that two bytes make, taken in the order in which they stand. -/
def word : ByteOrder → Byte → Byte → Word
  | highFirst, first, second => .ofBytes first second
  | lowFirst, first, second => .ofBytes second first

end ByteOrder

structure Config where
  policy : IllegalPolicy := .fault
  order : ByteOrder := .highFirst
deriving DecidableEq, Repr

namespace Config

/-- The choices a processor is built with if nothing else is said: undocumented opcodes are faults,
and words stand high byte first. -/
def standard : Config := {}

instance : Inhabited Config := ⟨standard⟩

/-- The choices of real hardware: undocumented opcodes are passed over, and words stand low byte
first. -/
def hardware : Config := ⟨.skip, .lowFirst⟩

/-- The same byte order with another policy. -/
def withPolicy (c : Config) (policy : IllegalPolicy) : Config := { c with policy }

/-- The same policy with another byte order. -/
def withOrder (c : Config) (order : ByteOrder) : Config := { c with order }

end Config

end M6502
