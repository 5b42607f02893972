import M6502.Cpu
import M6502.Proofs.Execution

/-!
# Faults

A step can go in three ways: a documented opcode is executed, an undocumented one is passed over, or
an undocumented one is a fault. A fault is met after the opcode has been taken from the instruction
stream, so that it leaves no trace is a statement about putting the program counter back.

## Main statements

* `Machine.step_of_next?`, `Machine.step_of_skip`, `Machine.step_of_fault` — the three ways.
* `Machine.step_cases` — there is no other.
* `Machine.result_step_eq_error_iff` — when a step fails.
* `Command.perform_execute_faults` — what fails, what a failure leaves behind, and that the families
  decline no documented instruction.
-/

namespace M6502

namespace Machine

/-- The outcome of executing a documented opcode. -/
def executed (m : Machine) (order : ByteOrder) (e : Encoding) : Outcome :=
  let i := e.instruction
  let cycles := e.cycles + m.extraCycles order i
  ⟨.ok cycles, m.execute order i, (m.announcement i).push (.executed
    { address := m.registers.pc, opcode := m.opcode, instruction := i, cycles,
      registers := (m.execute order i).registers })⟩

variable {config : Config} {m : Machine}

/-- A step at a documented opcode executes its instruction, whatever the policy is. -/
theorem step_of_next? {e : Encoding} (h : m.next? = some e) (config : Config) :
    step config m = m.executed config.order e := by
  simp only [step, h]
  exact m.perform_eq config.order (mem_of_decode h)

/-- Under a policy that forbids undocumented opcodes, a step at one fails and changes nothing. -/
theorem step_of_fault (h : m.next? = none) (hp : config.policy = .fault) :
    step config m =
      ⟨.error (.illegalOpcode m.opcode m.registers.pc), m,
        #[.illegalOpcode m.opcode m.registers.pc .fault]⟩ := by
  -- putting the program counter back undoes taking the opcode
  have hback : m.pastOpcode.goto m.registers.pc = m := rfl
  simp [step, h, hp, fault, hback]

/-- Under a policy that passes over undocumented opcodes, a step at one moves the program counter
on by one. -/
theorem step_of_skip (h : m.next? = none) (hp : config.policy = .skip) :
    step config m =
      ⟨.ok skipCycles, m.pastOpcode, #[.illegalOpcode m.opcode m.registers.pc .skip]⟩ := by
  simp [step, h, hp, skip]

/-- The three ways in which a step can go. -/
theorem step_cases (config : Config) (m : Machine) :
    (∃ e, m.next? = some e ∧ step config m = m.executed config.order e) ∨
    (m.next? = none ∧ config.policy = .skip ∧ step config m =
      ⟨.ok skipCycles, m.pastOpcode, #[.illegalOpcode m.opcode m.registers.pc .skip]⟩) ∨
    (m.next? = none ∧ config.policy = .fault ∧ step config m =
      ⟨.error (.illegalOpcode m.opcode m.registers.pc), m,
        #[.illegalOpcode m.opcode m.registers.pc .fault]⟩) := by
  cases hn : m.next? with
  | some e => exact .inl ⟨e, rfl, step_of_next? hn config⟩
  | none =>
    cases hp : config.policy with
    | skip => exact .inr (.inl ⟨rfl, rfl, step_of_skip hn hp⟩)
    | fault => exact .inr (.inr ⟨rfl, rfl, step_of_fault hn hp⟩)

/-- A step fails exactly at an undocumented opcode under a policy that forbids it. -/
theorem result_step_eq_error_iff (config : Config) (m : Machine) :
    (∃ fault, (step config m).result = .error fault) ↔
      m.next? = none ∧ config.policy = .fault := by
  rcases step_cases config m with ⟨e, hn, hs⟩ | ⟨hn, hp, hs⟩ | ⟨hn, hp, hs⟩
  · simp [hs, hn, executed]
  · simp [hs, hn, hp]
  · simp [hs, hn, hp]

/-- No step meets a documented opcode that nothing carries out. -/
theorem unclaimed_notMem_log_step (config : Config) (m : Machine) (opcode : Byte)
    (address : Word) : Event.unclaimed opcode address ∉ (step config m).log := by
  rcases step_cases config m with ⟨e, -, hs⟩ | ⟨-, -, hs⟩ | ⟨-, -, hs⟩
  · have : Event.unclaimed opcode address ∉ m.announcement e.instruction := by
      cases e.instruction <;> simp [announcement]
    simp [hs, executed, this]
  · simp [hs]
  · simp [hs]

end Machine

/-- For every documented instruction, some family takes the operand that is resolved for it. -/
theorem exists_family_of_mem {e : Encoding} (h : e ∈ instructionSet) (m : Machine)
    (order : ByteOrder) :
    ∃ family ∈ Family.all,
      (family e.instruction.operation (m.resolve order e.instruction).operand
        (m.ready order e.instruction)).isSome := by
  obtain ⟨extra, -, hperform⟩ := Instruction.perform?_resolve (fits_of_mem e h) m order
  obtain ⟨family, hf, hdone⟩ := List.exists_of_findSome?_eq_some hperform
  exact ⟨family, hf, by simp [hdone]⟩

/-- Executing one instruction is a step, whatever the hint. -/
theorem Command.perform_execute {c : Cpu} {o : Outcome} (h : c.machine.step c.config = o)
    (hint : Nat) : Command.perform c (.execute hint) = Command.executed c o :=
  congrArg (Command.executed c) h

/-- Executing one instruction fails exactly at an undocumented opcode under a policy that forbids
it. The fault then names the opcode and its address, and the processor is as it was. Under the
other policy the opcode costs two cycles and only the program counter moves. A documented opcode
never fails: whatever operand is resolved for it, a family takes it. The hint changes nothing. -/
theorem Command.perform_execute_faults (c : Cpu) (hint : Nat) :
    let opcode := c.machine.memory.read c.machine.registers.pc
    let reply := Command.perform c (.execute hint)
    reply = Command.executed c c.step ∧
    ((∃ fault, reply.result = some (.error fault)) ↔
      decode opcode = none ∧ c.config.policy = .fault) ∧
    (decode opcode = none ∧ c.config.policy = .fault →
      reply.result = some (.error (.illegalOpcode opcode c.machine.registers.pc)) ∧
      reply.cpu = c) ∧
    (decode opcode = none ∧ c.config.policy = .skip →
      reply.result = some (.ok 2) ∧
      reply.cpu = c.mapRegisters fun r => { r with pc := r.pc + 1 }) ∧
    (decode opcode ≠ none → ∃ cycles, reply.result = some (.ok cycles)) ∧
    (∀ e ∈ instructionSet, ∀ (m : Machine) (order : ByteOrder), ∃ family ∈ Family.all,
      (family e.instruction.operation (m.resolve order e.instruction).operand
        (m.ready order e.instruction)).isSome) ∧
    ∀ opcode address, Event.unclaimed opcode address ∉ reply.log := by
  intro opcode reply
  have hreply : reply = Command.executed c c.step := Command.perform_execute rfl hint
  refine ⟨hreply, ?_, ?_, ?_, ?_, ?_, ?_⟩
  · have hiff := Machine.result_step_eq_error_iff c.config c.machine
    constructor
    · rintro ⟨fault, hf⟩
      rw [hreply] at hf
      exact hiff.mp ⟨fault, Option.some.inj hf⟩
    · intro hn
      obtain ⟨fault, hf⟩ := hiff.mpr hn
      exact ⟨fault, congrArg some hf⟩
  · rintro ⟨hn, hp⟩
    have hdone : reply = _ := Command.perform_execute (Machine.step_of_fault hn hp) hint
    rw [hdone]
    exact ⟨rfl, rfl⟩
  · rintro ⟨hn, hp⟩
    have hdone : reply = _ := Command.perform_execute (Machine.step_of_skip hn hp) hint
    rw [hdone]
    exact ⟨rfl, rfl⟩
  · intro hn
    obtain ⟨e, he⟩ := Option.ne_none_iff_exists'.mp hn
    have hdone : reply = _ :=
      Command.perform_execute (Machine.step_of_next? he c.config) hint
    rw [hdone]
    exact ⟨_, rfl⟩
  · exact fun e he m order => exists_family_of_mem he m order
  · exact Machine.unclaimed_notMem_log_step c.config c.machine

/-- An undocumented byte at the last address, where taking the opcode wraps the program counter. -/
theorem Command.perform_execute_fault_at_last_address :
    let m : Machine := ⟨{ Registers.powerOn with pc := 0xFFFF }, Memory.blank.write 0xFFFF 0x02⟩
    (Command.perform ⟨m, ⟨.fault, .lowFirst⟩⟩ (.execute 0)).cpu = ⟨m, ⟨.fault, .lowFirst⟩⟩ ∧
      (Command.perform ⟨m, ⟨.skip, .lowFirst⟩⟩ (.execute 0)).cpu.machine.registers.pc = 0 := by
  intro m
  have hopcode : m.memory.read m.registers.pc = 0x02 := Memory.read_write_self _ _ _
  have hnone : decode (m.memory.read m.registers.pc) = none := by
    rw [hopcode]
    decide
  obtain ⟨-, -, hfault, -⟩ := Command.perform_execute_faults ⟨m, ⟨.fault, .lowFirst⟩⟩ 0
  obtain ⟨-, -, -, hskip, -⟩ := Command.perform_execute_faults ⟨m, ⟨.skip, .lowFirst⟩⟩ 0
  refine ⟨(hfault ⟨hnone, rfl⟩).2, ?_⟩
  rw [(hskip ⟨hnone, rfl⟩).2]
  change (0xFFFF : Word) + 1 = 0
  decide

end M6502
