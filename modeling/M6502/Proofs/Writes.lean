import M6502.Proofs.Runs

/-!
# What a step writes

An instruction writes the data cell that it names, or the cells of page one that it pushes to, or
nothing. A step changes no other cell, and a run changes no cell that none of its steps writes. The
cells are found from the machine before the step, so an instruction may well write over itself.

## Main definitions

* `Machine.writes` — the cells that an instruction may write.
* `Machine.writeSet` — the cells that a step may write.

## Main statements

* `Machine.read_execute` — an instruction changes no cell outside `writes`.
* `Machine.read_step`, `Machine.read_run` — the same of a step, and of a run.
* `Machine.memory_step_and_run` — the same together, with what a call leaves on the stack.
-/

namespace M6502

/-- The modes whose cell lies in page zero, whatever is added to the operand. -/
def DataMode.inPageZero : DataMode → Bool
  | zeroPage | zeroPageX | zeroPageY => true
  | absolute | absoluteX | absoluteY | indirectX | indirectY => false

namespace Machine

/-- The cells that an instruction at the program counter may write. -/
def writes (m : Machine) (order : ByteOrder) (i : Instruction) : List Word :=
  match i with
  | .write _ mode | .modify _ (.data mode) => [m.cell order mode]
  | .stack .pha | .stack .php => [m.registers.stackCell]
  | .jsr => [m.registers.stackCell, stackCellAt (m.registers.sp.low - 1)]
  | .read .. | .modify _ .accumulator | .register _ | .stack .pla | .stack .plp | .branch _
  | .jmp _ | .rts | .rti | .brk => []

/-- The cells that a step may write. At an undocumented opcode it writes none. -/
def writeSet (m : Machine) (order : ByteOrder) : List Word :=
  match m.next? with
  | some e => m.writes order e.instruction
  | none => []

/-! ## An instruction -/

variable (m : Machine) (order : ByteOrder)

@[simp] theorem memory_branch (op : BranchOp) (offset : Byte) :
    (m.branch op offset).memory = m.memory := by
  unfold branch
  split <;> rfl

@[simp] theorem memory_leave : m.leave.memory = m.memory := by simp only [leave, goto]

@[simp] theorem memory_resume : m.resume.memory = m.memory := by simp only [resume, goto]

/-- A call leaves the two bytes of the word that it pushes in two cells of page one. -/
theorem memory_pushWord (w : Word) :
    (m.pushWord w).memory = (m.memory.write m.registers.stackCell w.high).write
      (stackCellAt (m.registers.sp.low - 1)) w.low := by
  simp [pushWord, push]

/-- An instruction changes no cell but those that it writes. -/
theorem read_execute {i : Instruction} {a : Word} (h : a ∉ m.writes order i) :
    (m.execute order i).memory.read a = m.memory.read a := by
  cases i with
  | write op mode => exact Memory.read_write_of_ne _ _ (Ne.symm (List.ne_of_not_mem_cons h))
  | modify op target =>
    cases target with
    | accumulator => rfl
    | data mode => exact Memory.read_write_of_ne _ _ (Ne.symm (List.ne_of_not_mem_cons h))
  | stack op =>
    cases op with
    | pha | php => exact Memory.read_write_of_ne _ _ (Ne.symm (List.ne_of_not_mem_cons h))
    | pla | plp => rfl
  | jsr =>
    have hhigh : m.registers.stackCell ≠ a := Ne.symm (List.ne_of_not_mem_cons h)
    have hlow : stackCellAt (m.registers.sp.low - 1) ≠ a :=
      Ne.symm (List.ne_of_not_mem_cons (List.not_mem_of_not_mem_cons h))
    change ((m.past .jsr).pushWord _).memory.read a = _
    rw [memory_pushWord]
    exact (Memory.read_write_of_ne _ _ hlow).trans (Memory.read_write_of_ne _ _ hhigh)
  | branch op => exact congrArg (·.read a) (memory_branch _ op _)
  | rts => exact congrArg (·.read a) (memory_leave _)
  | rti => exact congrArg (·.read a) (memory_resume _)
  | read op source | register op | jmp mode | brk => rfl

/-- The address that a call pushes is that of its own last byte. -/
theorem pc_past_jsr_sub_one : (m.past .jsr).registers.pc - 1 = m.registers.pc + 2 := by
  change m.registers.pc + 3 - 1 = _
  bv_omega

/-- A call leaves the address of its own last byte on the stack, high byte first. -/
theorem read_execute_jsr :
    (m.execute order .jsr).memory.read m.registers.stackCell = (m.registers.pc + 2).high ∧
      (m.execute order .jsr).memory.read (stackCellAt (m.registers.sp.low - 1)) =
        (m.registers.pc + 2).low := by
  have hne : stackCellAt (m.registers.sp.low - 1) ≠ m.registers.stackCell := by
    rw [Registers.stackCell, Ne, stackCellAt_inj]
    bv_omega
  change ((m.past .jsr).pushWord _).memory.read _ = _ ∧ ((m.past .jsr).pushWord _).memory.read _ = _
  rw [memory_pushWord, pc_past_jsr_sub_one]
  exact ⟨(Memory.read_write_of_ne _ _ hne).trans (Memory.read_write_self _ _ _),
    Memory.read_write_self _ _ _⟩

/-- The cell of a mode of page zero lies in page zero, also if the index wraps. -/
theorem high_cell_of_inPageZero {mode : DataMode} (h : mode.inPageZero = true) :
    (m.cell order mode).high = 0 := by
  cases mode with
  | zeroPage | zeroPageX | zeroPageY =>
    simp only [cell, base, DataMode.base, DataMode.index]
    exact (congrArg Word.high (BitVec.add_zero _)).trans (Word.high_ofBytes _ _)
  | absolute | absoluteX | absoluteY | indirectX | indirectY => cases h

/-- Only a call writes two cells, and they are cells of page one. -/
theorem eq_jsr_of_mem_writes {i : Instruction} {a b : Word} (ha : a ∈ m.writes order i)
    (hb : b ∈ m.writes order i) (hne : a ≠ b) : i = .jsr ∧ a.high = 1 ∧ b.high = 1 := by
  have honly {c : Word} (hw : m.writes order i = [c]) : a = b := by
    rw [hw, List.mem_singleton] at ha hb
    exact ha.trans hb.symm
  cases i with
  | jsr =>
    have hpage {c : Word} (hc : c ∈ m.writes order .jsr) : c.high = 1 := by
      simp only [writes, List.mem_cons, List.not_mem_nil, or_false] at hc
      rcases hc with rfl | rfl <;> simp [Registers.stackCell, stackCellAt]
    exact ⟨rfl, hpage ha, hpage hb⟩
  | write op mode => exact absurd (honly rfl) hne
  | modify op target =>
    cases target with
    | accumulator => cases ha
    | data mode => exact absurd (honly rfl) hne
  | stack op =>
    cases op with
    | pha | php => exact absurd (honly rfl) hne
    | pla | plp => cases ha
  | read op source | register op | branch op | jmp mode | rts | rti | brk => cases ha

/-! ## Steps and runs -/

variable {m} {config : Config}

/-- A step changes no cell but those that it writes. -/
theorem read_step {a : Word} (h : a ∉ m.writeSet config.order) :
    (step config m).machine.memory.read a = m.memory.read a := by
  cases hn : m.next? with
  | some e =>
    rw [writeSet, hn] at h
    rw [machine_step_of_next? hn]
    exact m.read_execute config.order h
  | none =>
    obtain ⟨pc, hs⟩ := machine_step_of_undocumented hn config
    rw [hs]
    rfl

/-- A cell that no step of a run writes holds at the end what it held at the start. -/
theorem read_run (n : Nat) (m : Machine) {a : Word}
    (h : ∀ v ∈ visited config n m, a ∉ v.writeSet config.order) :
    (run config n m).machine.memory.read a = m.memory.read a :=
  rel_run (R := fun m last => last.memory.read a = m.memory.read a) (fun _ => rfl)
    (fun h g => g.trans h) (fun _ hm => read_step hm) n m h

/-- A step that changes two cells is a call, and changes two cells of page one. -/
theorem eq_jsr_of_changes {a b : Word} (hne : a ≠ b)
    (ha : (step config m).machine.memory.read a ≠ m.memory.read a)
    (hb : (step config m).machine.memory.read b ≠ m.memory.read b) :
    (∃ e, m.next? = some e ∧ e.instruction = .jsr) ∧ a.high = 1 ∧ b.high = 1 := by
  have hmema : a ∈ m.writeSet config.order := Decidable.not_imp_comm.mp read_step ha
  have hmemb : b ∈ m.writeSet config.order := Decidable.not_imp_comm.mp read_step hb
  cases hn : m.next? with
  | none =>
    rw [writeSet, hn] at hmema
    cases hmema
  | some e =>
    rw [writeSet, hn] at hmema hmemb
    obtain ⟨hjsr, hpages⟩ := m.eq_jsr_of_mem_writes config.order hmema hmemb hne
    exact ⟨⟨e, rfl, hjsr⟩, hpages⟩

/-- What a step and a run write. A step changes at most the cells of its write set, which lies in
page zero for the modes of page zero. A call leaves the address of its own last byte on the stack,
and no other step changes two cells. A run changes at most what its steps write. -/
theorem memory_step_and_run (config : Config) (m : Machine) :
    (∀ a ∉ m.writeSet config.order,
      (step config m).machine.memory.read a = m.memory.read a) ∧
    (∀ mode : DataMode, mode.inPageZero = true → (m.cell config.order mode).high = 0) ∧
    (∀ e, m.next? = some e → e.instruction = .jsr →
      (step config m).machine.memory.read (stackCellAt m.registers.sp.low) =
        (m.registers.pc + 2).high ∧
      (step config m).machine.memory.read (stackCellAt (m.registers.sp.low - 1)) =
        (m.registers.pc + 2).low) ∧
    (∀ a b, a ≠ b → (step config m).machine.memory.read a ≠ m.memory.read a →
      (step config m).machine.memory.read b ≠ m.memory.read b →
      (∃ e, m.next? = some e ∧ e.instruction = .jsr) ∧ a.high = 1 ∧ b.high = 1) ∧
    ∀ n a, (∀ v ∈ visited config n m, a ∉ v.writeSet config.order) →
      (run config n m).machine.memory.read a = m.memory.read a := by
  refine ⟨fun a ha => read_step ha, fun mode hmode => m.high_cell_of_inPageZero _ hmode, ?_,
    fun a b hne ha hb => eq_jsr_of_changes hne ha hb, fun n a h => read_run n m h⟩
  intro e hn hjsr
  rw [machine_step_of_next? hn, hjsr]
  exact m.read_execute_jsr config.order

/-- A call at the last address, with a stack pointer outside page one: its operand follows at the
first addresses, and the bytes that it pushes wrap from the first cell of page one to the last. -/
theorem memory_step_of_wrapped_call :
    let m : Machine := ⟨{ Registers.powerOn with sp := 0x0300, pc := 0xFFFF },
      (Memory.blank.load 0xFFFF [0x20, 0x12, 0x34]).write 0x0100 0xAA⟩
    let after := (step .hardware m).machine.memory
    after.read 0x0100 = 0x00 ∧ after.read 0x01FF = 0x01 ∧ after.read 0x0001 = 0x34 := by
  intro m after
  have hn : m.next? = some ⟨0x20, .jsr, 6⟩ := by decide +kernel
  have hfirst : stackCellAt m.registers.sp.low = 0x0100 := by decide +kernel
  have hlast : stackCellAt (m.registers.sp.low - 1) = 0x01FF := by decide +kernel
  have hfree : (0x0001 : Word) ∉ m.writeSet .lowFirst := by decide +kernel
  obtain ⟨hkeep, -, hcall, -, -⟩ := memory_step_and_run .hardware m
  obtain ⟨hhigh, hlow⟩ := hcall _ hn rfl
  rw [hfirst] at hhigh
  rw [hlast] at hlow
  refine ⟨hhigh.trans ?_, hlow.trans ?_, (hkeep _ hfree).trans ?_⟩
  · decide
  · decide
  · decide +kernel

end Machine

end M6502
