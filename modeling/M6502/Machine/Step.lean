import M6502.Instruction.Encoding
import M6502.Machine.Family
import M6502.Mode.Resolve

/-!
# Steps and runs

A step takes one opcode from the instruction stream, resolves the operand of its instruction, and
hands the operation to the families. What goes wrong is a fault, and the step then puts the program
counter back to the opcode. A run takes a number of steps and adds up their cycles, and the first
step that fails ends it.

## Main definitions

* `Outcome` — the cycles or the fault, the machine afterwards, and what was logged.
* `Machine.next?` — the documented opcode that comes next.
* `Machine.perform`, `Machine.skip`, `Machine.fault` — the three ways a step can go.
* `Machine.step`, `Machine.run` — one instruction, and a number of them.

## Main statements

* `Machine.runFrom_of_error` — no step is taken after a fault.
* `Machine.run_succ` — a run of one more instruction starts with a step.
* `Machine.run_add` — a run goes on where a shorter one ended.
-/

namespace M6502

/-- What came of running instructions. -/
structure Outcome where
  /-- The cycles that were taken, or why the last step failed. -/
  result : Except Fault Nat
  /-- The machine afterwards, also after a fault. -/
  machine : Machine
  log : Array Event

namespace Outcome

def start (m : Machine) : Outcome := ⟨.ok 0, m, #[]⟩

/-- Goes on with `next`, unless a step has failed. -/
def andThen : Outcome → (Machine → Outcome) → Outcome
  | ⟨.error fault, machine, log⟩, _ => ⟨.error fault, machine, log⟩
  | ⟨.ok cycles, machine, log⟩, next =>
    let after := next machine
    ⟨after.result.map (cycles + ·), after.machine, log ++ after.log⟩

@[simp] theorem start_andThen (m : Machine) (next : Machine → Outcome) :
    (start m).andThen next = next m := by
  rcases h : next m with ⟨_ | _, _, _⟩ <;> simp [start, andThen, h, Except.map]

theorem andThen_of_error {o : Outcome} {fault : Fault} (h : o.result = .error fault)
    (next : Machine → Outcome) : o.andThen next = o := by
  obtain ⟨_ | _, _, _⟩ := o
  · rfl
  · simp at h

@[simp] theorem andThen_start (o : Outcome) : o.andThen start = o := by
  obtain ⟨_ | _, _, _⟩ := o <;> simp [start, andThen, Except.map]

theorem andThen_assoc (o : Outcome) (f g : Machine → Outcome) :
    (o.andThen f).andThen g = o.andThen fun m => (f m).andThen g := by
  obtain ⟨_ | _, m, _⟩ := o
  · rfl
  · rcases hf : f m with ⟨_ | _, m, _⟩
    · simp [andThen, hf, Except.map]
    · rcases hg : g m with ⟨_ | _, _, _⟩ <;>
        simp [andThen, hf, hg, Except.map, Nat.add_assoc]

end Outcome

namespace Machine

/-- The cycles for which an undocumented opcode that is passed over is charged. -/
def skipCycles : Nat := 2

def opcode (m : Machine) : Byte := m.memory.read m.registers.pc

/-- The documented opcode at the program counter, if the byte there is one. -/
def next? (m : Machine) : Option Encoding := decode m.opcode

/-- The machine with the program counter past the opcode. -/
def pastOpcode (m : Machine) : Machine := { m with registers := m.registers.advance 1 }

/-- The operand of an instruction whose opcode is at the program counter. -/
def resolve (m : Machine) (order : ByteOrder) (i : Instruction) : Resolved :=
  i.mode.resolve order m.memory m.pastOpcode.registers

/-- The machine with the program counter past a whole instruction. -/
def ready (m : Machine) (order : ByteOrder) (i : Instruction) : Machine :=
  { m with registers := (m.resolve order i).registers }

/-- Fails at the opcode at the program counter of `m`. `now` is the machine by the time the fault
is met; only its program counter is put back. -/
def fault (m now : Machine) (event : Event) : Outcome :=
  ⟨.error (.illegalOpcode m.opcode m.registers.pc), now.goto m.registers.pc, #[event]⟩

def skip (m : Machine) (event : Event) : Outcome := ⟨.ok skipCycles, m.pastOpcode, #[event]⟩

/-- Executes the instruction of a documented opcode that is found at the program counter. -/
def perform (m : Machine) (order : ByteOrder) (e : Encoding) : Outcome :=
  let i := e.instruction
  let resolved := m.resolve order i
  match i.operation.perform? resolved.operand (m.ready order i) with
  | some done =>
    let cycles := e.cycles + i.access.crossingCycles resolved.crossed + done.extra
    ⟨.ok cycles, done.machine, done.log.push (.executed
      { address := m.registers.pc, opcode := m.opcode, instruction := i, cycles,
        registers := done.machine.registers })⟩
  | none => m.fault (m.ready order i) (.unclaimed m.opcode m.registers.pc)

/-- Takes the opcode at the program counter and executes its instruction. -/
def step (config : Config) (m : Machine) : Outcome :=
  match m.next? with
  | some e => m.perform config.order e
  | none =>
    let event := Event.illegalOpcode m.opcode m.registers.pc config.policy
    match config.policy with
    | .skip => m.skip event
    | .fault => m.fault m.pastOpcode event

/-- Takes up to `n` more steps, none after a step that failed. -/
def runFrom (config : Config) : Nat → Outcome → Outcome
  | 0, o => o
  | n + 1, o =>
    match o.result with
    | .ok _ => runFrom config n (o.andThen (step config))
    | .error _ => o

theorem runFrom_of_error {config : Config} {o : Outcome} {fault : Fault}
    (h : o.result = .error fault) (n : Nat) : runFrom config n o = o := by
  cases n <;> simp [runFrom, h]

theorem runFrom_succ_of_ok {config : Config} {o : Outcome} {cycles : Nat}
    (h : o.result = .ok cycles) (n : Nat) :
    runFrom config (n + 1) o = runFrom config n (o.andThen (step config)) := by
  simp [runFrom, h]

/-- Executes `n` instructions, or as many as go before the first fault. There is no bound on the
total of their cycles. -/
def run (config : Config) (n : Nat) (m : Machine) : Outcome := runFrom config n (.start m)

@[simp] theorem run_zero (config : Config) (m : Machine) : run config 0 m = .start m := rfl

/-- Taking more steps is the same as starting a run where the steps so far ended. -/
theorem runFrom_eq (config : Config) (n : Nat) (o : Outcome) :
    runFrom config n o = o.andThen (run config n) := by
  induction n generalizing o with
  | zero => exact o.andThen_start.symm
  | succ n ih =>
    have hrun : run config (n + 1) = fun m => (step config m).andThen (run config n) := by
      funext m
      rw [run, runFrom_succ_of_ok (rfl : (Outcome.start m).result = .ok 0), ih,
        Outcome.start_andThen]
    cases ho : o.result with
    | ok cycles => rw [runFrom_succ_of_ok ho, ih, Outcome.andThen_assoc, hrun]
    | error fault => rw [runFrom_of_error ho, Outcome.andThen_of_error ho]

/-- A run of one more instruction starts with a step. -/
theorem run_succ (config : Config) (n : Nat) (m : Machine) :
    run config (n + 1) m = (step config m).andThen (run config n) := by
  rw [run, runFrom_succ_of_ok (rfl : (Outcome.start m).result = .ok 0), runFrom_eq,
    Outcome.start_andThen]

/-- A run goes on where a shorter one ended. -/
theorem run_add (config : Config) (j k : Nat) (m : Machine) :
    run config (j + k) m = (run config j m).andThen (run config k) := by
  induction j generalizing m with
  | zero => simp
  | succ j ih =>
    rw [Nat.add_right_comm, run_succ, run_succ, Outcome.andThen_assoc]
    exact congrArg _ (funext ih)

end Machine

end M6502
