import M6502.Proofs.Addressing

/-!
# What an instruction does

The families look at an operation and an operand that were resolved apart from each other. Here is
the same in one piece: what each instruction makes of a machine whose program counter stands at its
opcode. That the two agree is the statement that the instruction set, the modes and the families fit
together: no documented instruction resolves to an operand that every family declines.

## Main definitions

* `Source.byte`, `Target.place`, `JumpMode.target` — what an instruction at the program counter
  designates.
* `Machine.execute` — the machine after an instruction.
* `Machine.extraCycles` — the cycles that are added to its base time.

## Main statements

* `Instruction.perform?_resolve` — a documented instruction is carried out, as `execute` says.
* `Machine.perform_eq` — performing a documented opcode never fails.
-/

namespace M6502

/-- The byte that an instruction at the program counter reads. -/
def Source.byte (m : Machine) (order : ByteOrder) : Source → Byte
  | immediate => m.operandByte
  | data mode => m.memory.read (m.cell order mode)

/-- The place that an instruction at the program counter changes. -/
def Target.place (m : Machine) (order : ByteOrder) : Target → Place
  | accumulator => .accumulator
  | data mode => .cell (m.cell order mode)

/-- The address to which an instruction at the program counter jumps. -/
def JumpMode.target (m : Machine) (order : ByteOrder) : JumpMode → Word
  | absolute => m.operandWord order
  | indirect => m.memory.vector order (m.operandWord order)

namespace Machine

/-- The machine after an instruction whose opcode is at the program counter. -/
def execute (m : Machine) (order : ByteOrder) (i : Instruction) : Machine :=
  let past := m.past i
  match i with
  | .read op source => { past with registers := op.apply (source.byte m order) past.registers }
  | .write op mode =>
    { past with memory := m.memory.write (m.cell order mode) (op.value m.registers) }
  | .modify op target => past.modify op (target.place m order)
  | .register op => { past with registers := op.apply past.registers }
  | .stack op => op.apply past
  | .branch op => past.branch op m.operandByte
  | .jmp mode => past.goto (mode.target m order)
  | .jsr => past.call (m.operandWord order)
  | .rts => past.leave
  | .rti => past.resume
  | .brk => past.goto (m.registers.pc + 2)

/-- The cycles that an instruction adds to its base time. -/
def extraCycles (m : Machine) (order : ByteOrder) : Instruction → Nat
  | .read _ (.data mode) =>
    Access.read.crossingCycles (Location.mk (m.base order mode) (m.cell order mode)).crossed
  | .branch op => (m.past (.branch op)).branchExtra op m.operandByte
  | _ => 0

/-- What an instruction logs before its trace. -/
def announcement (m : Machine) : Instruction → Array Event
  | .brk => #[.brk m.registers.pc]
  | _ => #[]

end Machine

/-! ## Operands that are resolved -/

namespace Machine

variable (m : Machine) (order : ByteOrder)

/-- The operand of an instruction with a data mode is the cell of that mode. -/
theorem resolve_data {i : Instruction} {mode : DataMode} (h : i.mode = .data mode) :
    (m.resolve order i).operand = .address (m.cell order mode) ∧
      (m.resolve order i).crossed =
        (Location.mk (m.base order mode) (m.cell order mode)).crossed := by
  simp [resolve, h, Mode.resolve, locate_pastOpcode]

/-- The cell of the absolute mode is the word after the opcode. -/
theorem cell_absolute : m.cell order .absolute = m.operandWord order := by
  simp [cell, base, DataMode.base, DataMode.index, operandWord, operandByte, pastOpcode,
    Registers.advance, BitVec.add_assoc]

/-- A jump resolves to its target. -/
theorem operand_jmp (mode : JumpMode) :
    (m.resolve order (.jmp mode)).operand = .address (mode.target m order) := by
  cases mode with
  | absolute => rw [(m.resolve_data order rfl).1, cell_absolute]; rfl
  | indirect =>
    simp [resolve, Instruction.mode, JumpMode.mode, Mode.resolve, Registers.fetchWord_eq,
      JumpMode.target, operandWord, operandByte, pastOpcode, Registers.advance, BitVec.add_assoc]

end Machine

/-! ## The families carry out every documented instruction -/

/-- The operation of an instruction can work on its operand: the accumulator is shifted and rotated,
but not counted up or down. -/
def Instruction.fits : Instruction → Bool
  | .modify .inc .accumulator | .modify .dec .accumulator => false
  | _ => true

theorem fits_of_mem : ∀ e ∈ instructionSet, e.instruction.fits = true := by
  decide +kernel

/-- An instruction with a fitting operand is carried out by a family. What comes of it is what
`execute` says, and its time grows by `extraCycles`, of which a crossed page may be a part. -/
theorem Instruction.perform?_resolve {i : Instruction} (h : i.fits = true) (m : Machine)
    (order : ByteOrder) :
    ∃ extra, i.access.crossingCycles (m.resolve order i).crossed + extra = m.extraCycles order i ∧
      i.operation.perform? (m.resolve order i).operand (m.ready order i) =
        some ⟨m.execute order i, extra, m.announcement i⟩ := by
  rw [Machine.ready_eq]
  cases i with
  | read op source =>
    cases source with
    | immediate => exact ⟨0, rfl, Operation.perform?_read _ _ _⟩
    | data mode =>
      obtain ⟨ho, hc⟩ := m.resolve_data order (i := .read op (.data mode)) rfl
      refine ⟨0, ?_, ?_⟩
      · rw [hc]
        rfl
      · rw [ho]
        exact Operation.perform?_read _ _ _
  | write op mode =>
    obtain ⟨ho, -⟩ := m.resolve_data order (i := .write op mode) rfl
    refine ⟨0, ?_, ?_⟩
    · cases (m.resolve order (.write op mode)).crossed <;> rfl
    · rw [ho]
      exact Operation.perform?_write _ _ _
  | modify op target =>
    cases target with
    | accumulator =>
      refine ⟨0, rfl, ?_⟩
      cases op
      case inc | dec => cases h
      all_goals rfl
    | data mode =>
      obtain ⟨ho, -⟩ := m.resolve_data order (i := .modify op (.data mode)) rfl
      refine ⟨0, ?_, ?_⟩
      · cases (m.resolve order (.modify op (.data mode))).crossed <;> rfl
      · rw [ho]
        exact Operation.perform?_modify _ _ _
  | register op => exact ⟨0, rfl, Operation.perform?_register _ _ _⟩
  | stack op => exact ⟨0, rfl, Operation.perform?_stack _ _ _⟩
  | branch op => exact ⟨_, Nat.zero_add _, Operation.perform?_branch _ _ _⟩
  | jmp mode =>
    refine ⟨0, rfl, ?_⟩
    rw [m.operand_jmp]
    rfl
  | jsr =>
    refine ⟨0, rfl, ?_⟩
    rw [(m.resolve_data order (i := .jsr) rfl).1, m.cell_absolute]
    rfl
  | rts => exact ⟨0, rfl, rfl⟩
  | rti => exact ⟨0, rfl, rfl⟩
  | brk =>
    -- the family finds the opcode by going back over it
    have hpc : (m.past .brk).registers.pc = m.registers.pc + 1 := rfl
    refine ⟨0, rfl, ?_⟩
    change some (Performed.mk ((m.past .brk).goto ((m.past .brk).registers.pc + 1)) 0
      #[.brk ((m.past .brk).registers.pc - 1)]) = _
    rw [hpc, BitVec.add_assoc, BitVec.add_sub_cancel]
    rfl

/-- Performing a documented opcode never fails, and comes to what `execute` says. -/
theorem Machine.perform_eq (m : Machine) (order : ByteOrder) {e : Encoding}
    (h : e ∈ instructionSet) :
    let i := e.instruction
    let cycles := e.cycles + m.extraCycles order i
    m.perform order e = ⟨.ok cycles, m.execute order i, (m.announcement i).push (.executed
      { address := m.registers.pc, opcode := m.opcode, instruction := i, cycles,
        registers := (m.execute order i).registers })⟩ := by
  obtain ⟨extra, hextra, hperform⟩ := Instruction.perform?_resolve (fits_of_mem e h) m order
  simp only [perform, hperform, Nat.add_assoc, hextra]

end M6502
