import M6502.Machine.Step

/-!
# The processor

A processor is a machine together with the choices it was built with. This is what an embedding
program holds: it builds a processor, loads memory, sets registers, and lets it run. Everything it
can do is a `Command`.

## Main definitions

* `Cpu` — a machine and its configuration.
* `Cpu.run` — a number of instructions, with the total of their cycles in 64 bits.
* `Command` — what an embedding program can do with a processor.
* `Command.perform` — the processor after a command, with what was answered and logged.

## Main statements

* `Cpu.run_eq` — what the total that wraps has to do with the sum of the cycles.
-/

namespace M6502

namespace Outcome

/-- The outcome with its total as 64 bits hold it. -/
def truncate (o : Outcome) : Outcome :=
  { o with result := o.result.map fun total => (BitVec.ofNat 64 total).toNat }

/-- A total that wrapped goes on like one that did not. -/
theorem truncate_andThen (o : Outcome) (next : Machine → Outcome) :
    (o.truncate.andThen next).truncate = (o.andThen next).truncate := by
  obtain ⟨_ | total, m, _⟩ := o
  · simp [truncate, andThen, Except.map]
  · rcases h : next m with ⟨_ | cycles, _, _⟩ <;> simp [truncate, andThen, h, Except.map]

end Outcome

/-- A machine and the choices made for it. The default is a machine after power-on. -/
structure Cpu where
  machine : Machine := .powerOn
  config : Config := .standard
deriving DecidableEq

namespace Cpu

instance : Inhabited Cpu := ⟨{}⟩

def mapRegisters (c : Cpu) (f : Registers → Registers) : Cpu :=
  { c with machine := { c.machine with registers := f c.machine.registers } }

def mapMemory (c : Cpu) (f : Memory → Memory) : Cpu :=
  { c with machine := { c.machine with memory := f c.machine.memory } }

def step (c : Cpu) : Outcome := c.machine.step c.config

/-- Takes up to `n` more steps, none after a step that failed. The total of the cycles is a number
of 64 bits, so each addition to it wraps. -/
def runFrom (config : Config) : Nat → Outcome → Outcome
  | 0, o => o
  | n + 1, o =>
    match o.result with
    | .ok _ => runFrom config n (o.andThen (Machine.step config)).truncate
    | .error _ => o

/-- Executes `n` instructions, or as many as go before the first fault, and adds up their cycles in
64 bits. -/
def run (c : Cpu) (n : Nat) : Outcome := runFrom c.config n (.start c.machine)

/-- It does not matter whether each total wraps, or only the last. -/
theorem runFrom_truncate (config : Config) (n : Nat) (o : Outcome) :
    runFrom config n o.truncate = (Machine.runFrom config n o).truncate := by
  induction n generalizing o with
  | zero => rfl
  | succ n ih =>
    obtain ⟨fault | total, m, log⟩ := o
    · rfl
    · exact (congrArg (runFrom config n) (Outcome.truncate_andThen _ _)).trans (ih _)

/-- A run ends as if its total did not wrap, but for the total. -/
theorem run_eq (c : Cpu) (n : Nat) : c.run n = (c.machine.run c.config n).truncate :=
  runFrom_truncate c.config n (.start c.machine)

theorem machine_run (c : Cpu) (n : Nat) :
    (c.run n).machine = (c.machine.run c.config n).machine := by
  rw [run_eq]
  rfl

theorem log_run (c : Cpu) (n : Nat) : (c.run n).log = (c.machine.run c.config n).log := by
  rw [run_eq]
  rfl

theorem result_run_eq_error_iff (c : Cpu) (n : Nat) (fault : Fault) :
    (c.run n).result = .error fault ↔ (c.machine.run c.config n).result = .error fault := by
  rw [run_eq, Outcome.truncate]
  cases (c.machine.run c.config n).result <;> simp [Except.map]

theorem result_run_eq_ok_iff (c : Cpu) (n total : Nat) :
    (c.run n).result = .ok total ↔
      ∃ sum, (c.machine.run c.config n).result = .ok sum ∧
        total = (BitVec.ofNat 64 sum).toNat := by
  rw [run_eq, Outcome.truncate]
  cases (c.machine.run c.config n).result <;> simp [Except.map, eq_comm]

end Cpu

/-- What an embedding program can do with a processor. -/
inductive Command where
  | create (config : Config)
  /-- Clear registers and memory, and keep the configuration. -/
  | reset
  | setA (v : Byte)
  | setX (v : Byte)
  | setY (v : Byte)
  /-- Set the stack pointer as a whole word, inside page one or outside it. -/
  | setSp (v : Word)
  | setPc (v : Word)
  | setStatus (s : Status)
  | setFlags (mask : Byte) (on : Bool)
  | setIrq (pending : Bool)
  | setNmi (pending : Bool)
  | write (a : Word) (v : Byte)
  | load (start : Word) (bytes : List Byte)
  /-- Execute one instruction. The hint tells how many cycles the caller would like to spend; one
  whole instruction is executed whatever it says. -/
  | execute (hint : Nat)
  | run (count : Nat)
deriving DecidableEq

/-- What came of a command. -/
structure Reply where
  cpu : Cpu
  /-- The cycles taken or the fault, for commands that execute instructions. -/
  result : Option (Except Fault Nat) := none
  log : Array Event := #[]

namespace Command

def executed (c : Cpu) (o : Outcome) : Reply where
  cpu := { c with machine := o.machine }
  result := some o.result
  log := o.log

/-- The processor after a command, with what was answered and logged. -/
def perform (c : Cpu) : Command → Reply
  | create config => { cpu := ⟨.powerOn, config⟩, log := #[.created config] }
  | reset =>
    let r := Registers.powerOn
    { cpu := ⟨⟨r, .blank⟩, c.config⟩, log := #[.reset r.pc r.sp] }
  | setA v => { cpu := c.mapRegisters ({ · with a := v }) }
  | setX v => { cpu := c.mapRegisters ({ · with x := v }) }
  | setY v => { cpu := c.mapRegisters ({ · with y := v }) }
  | setSp v => { cpu := c.mapRegisters ({ · with sp := v }) }
  | setPc v => { cpu := c.mapRegisters ({ · with pc := v }) }
  | setStatus s => { cpu := c.mapRegisters (·.setStatus s) }
  | setFlags mask on => { cpu := c.mapRegisters (·.setFlags mask on) }
  | setIrq pending => { cpu := c.mapRegisters ({ · with irqPending := pending }) }
  | setNmi pending => { cpu := c.mapRegisters ({ · with nmiPending := pending }) }
  | write a v => { cpu := c.mapMemory (·.write a v) }
  | load start bytes => { cpu := c.mapMemory (·.load start bytes) }
  | execute _ => executed c c.step
  | run count => executed c (c.run count)

theorem machine_perform_run (c : Cpu) (n : Nat) :
    (perform c (run n)).cpu.machine = (c.machine.run c.config n).machine :=
  c.machine_run n

end Command

end M6502
