import M6502.Proofs.Flow
import M6502.Proofs.Views
import M6502.Proofs.Writes

/-!
# What a step reads

An instruction reads its own bytes, the pointer or the vector through which it finds a cell, the
data cell itself unless it is a store, and the cells of page one that it pulls from. What it does is
decided by these cells and by what it sees of the registers: two machines that hold the same there
do the same, write the same bytes to the same cells, and take the same time.

## Main definitions

* `Machine.reads` — the cells that an instruction reads, its opcode apart.
* `Machine.readSet` — the cells that a step reads.
* `View.Alike` — two machines hold the same, as far as one looks at registers and cells.

## Main statements

* `View.Alike.cell_eq` — two machines that are alike where they read designate the same cell.
* `View.Alike.execute`, `View.Alike.step` — an instruction and a step keep such machines alike, also
  in the cells that are written.
-/

namespace M6502

/-- Consecutive addresses, wrapping after the last one. -/
def Word.range (a : Word) : Nat → List Word
  | 0 => []
  | count + 1 => a :: range (a + 1) count

namespace Machine

/-- The bytes behind the opcode of an instruction in a given mode. -/
def operandCells (m : Machine) (mode : Mode) : List Word :=
  Word.range (m.registers.pc + 1) mode.operandLength

/-- The cells of page zero that hold the pointer through which a mode finds its data cell. -/
def pointerCells (m : Machine) (mode : DataMode) : List Word :=
  match mode with
  | .indirectX =>
    let offset := m.operandByte + m.registers.x
    [.ofLow offset, .ofLow (offset + 1)]
  | .indirectY => [.ofLow m.operandByte, .ofLow (m.operandByte + 1)]
  | .zeroPage | .zeroPageX | .zeroPageY | .absolute | .absoluteX | .absoluteY => []

/-- The cell that the `n`-th pull takes its byte from. -/
def pullCell (m : Machine) (n : Byte) : Word := stackCellAt (m.registers.sp.low + n)

/-- The cells that an instruction at the program counter reads besides its own bytes. A store does
not read the cell that it writes. -/
def dataReads (m : Machine) (order : ByteOrder) (i : Instruction) : List Word :=
  match i with
  | .read _ (.data mode) | .modify _ (.data mode) => m.pointerCells mode ++ [m.cell order mode]
  | .write _ mode => m.pointerCells mode
  | .jmp .indirect => [m.operandWord order, (m.operandWord order).nextInPage]
  | .stack .pla | .stack .plp => [m.pullCell 1]
  | .rts => [m.pullCell 1, m.pullCell 2]
  | .rti => [m.pullCell 1, m.pullCell 2, m.pullCell 3]
  | .read _ .immediate | .modify _ .accumulator | .register _ | .stack .pha | .stack .php
  | .branch _ | .jmp .absolute | .jsr | .brk => []

/-- The cells that an instruction at the program counter reads, its opcode apart. -/
def reads (m : Machine) (order : ByteOrder) (i : Instruction) : List Word :=
  m.operandCells i.mode ++ m.dataReads order i

/-- The cells that a step reads. Of an undocumented opcode it reads no more than the opcode. -/
def readSet (m : Machine) (order : ByteOrder) : List Word :=
  m.registers.pc ::
    match m.next? with
    | some e => m.reads order e.instruction
    | none => []

/-- The step at the program counter pushes the status. -/
def pushesStatus (m : Machine) : Bool := m.next?.any fun e => e.instruction == .stack .php

end Machine

/-- Two machines hold the same, as far as one looks at their registers in a view and at the cells of
`T`. -/
structure View.Alike (v : View) (T : Word → Prop) (m n : Machine) : Prop where
  registers : v.Agree m.registers n.registers
  memory : ∀ a, T a → m.memory.read a = n.memory.read a

namespace View.Alike

variable {v : View} {T : Word → Prop} {m n : Machine} {order : ByteOrder} {config : Config}

theorem mono {U : Word → Prop} (h : v.Alike T m n) (hU : ∀ a, U a → T a) : v.Alike U m n :=
  { h with memory := fun a ha => h.memory a (hU a ha) }

/-! ## Operands -/

theorem opcode_eq (h : v.Alike T m n) (hT : T m.registers.pc) : m.opcode = n.opcode := by
  rw [Machine.opcode, Machine.opcode, ← h.registers.pc]
  exact h.memory _ hT

theorem operandByte_eq (h : v.Alike T m n) (mode : Mode) (hone : 1 ≤ mode.operandLength)
    (hT : ∀ a ∈ m.operandCells mode, T a) : m.operandByte = n.operandByte := by
  have hfirst : m.registers.pc + 1 ∈ m.operandCells mode := by
    obtain ⟨k, hk⟩ : ∃ k, mode.operandLength = k + 1 := ⟨mode.operandLength - 1, by omega⟩
    rw [Machine.operandCells, hk]
    exact List.mem_cons_self
  rw [Machine.operandByte, Machine.operandByte, ← h.registers.pc]
  exact h.memory _ (hT _ hfirst)

theorem operandWord_eq (h : v.Alike T m n) (mode : Mode) (htwo : mode.operandLength = 2)
    (hT : ∀ a ∈ m.operandCells mode, T a) : m.operandWord order = n.operandWord order := by
  have hsecond : m.registers.pc + 2 ∈ m.operandCells mode := by
    rw [Machine.operandCells, htwo]
    simp [Word.range, BitVec.add_assoc]
  have hbyte : m.memory.read (m.registers.pc + 2) = n.memory.read (n.registers.pc + 2) := by
    rw [← h.registers.pc]
    exact h.memory _ (hT _ hsecond)
  rw [Machine.operandWord, Machine.operandWord, h.operandByte_eq mode (by omega) hT, hbyte]

theorem pointer_eq (h : v.Alike T m n) {offset : Byte}
    (hT : ∀ a ∈ [Word.ofLow offset, Word.ofLow (offset + 1)], T a) :
    m.memory.pointer offset = n.memory.pointer offset := by
  obtain ⟨hlow, hhigh⟩ := List.forall_mem_cons.mp hT
  rw [Memory.pointer, Memory.pointer, h.memory _ hlow, h.memory _ (hhigh _ List.mem_cons_self)]

section Cell

variable {mode : DataMode} (hoperand : ∀ a ∈ m.operandCells (.data mode), T a)
  (hpointer : ∀ a ∈ m.pointerCells mode, T a)
include hoperand hpointer

theorem base_eq (h : v.Alike T m n) : m.base order mode = n.base order mode := by
  have hbyte : m.operandByte = n.operandByte :=
    h.operandByte_eq (.data mode) (by cases mode <;> decide) hoperand
  cases mode with
  | zeroPage => exact congrArg Word.ofLow hbyte
  | zeroPageX => exact congrArg Word.ofLow (congrArg₂ (· + ·) hbyte h.registers.x)
  | zeroPageY => exact congrArg Word.ofLow (congrArg₂ (· + ·) hbyte h.registers.y)
  | absolute | absoluteX | absoluteY =>
    have hword : m.operandWord order = n.operandWord order := h.operandWord_eq _ rfl hoperand
    simpa [Machine.operandWord, Machine.operandByte, Machine.base, DataMode.base,
      Machine.pastOpcode, Registers.advance, BitVec.add_assoc] using hword
  | indirectX =>
    change m.memory.pointer (m.operandByte + m.registers.x) =
      n.memory.pointer (n.operandByte + n.registers.x)
    rw [← hbyte, ← h.registers.x]
    exact h.pointer_eq hpointer
  | indirectY =>
    change m.memory.pointer m.operandByte = n.memory.pointer n.operandByte
    rw [← hbyte]
    exact h.pointer_eq hpointer

/-- Two machines that are alike where a mode reads designate the same cell. -/
theorem cell_eq (h : v.Alike T m n) : m.cell order mode = n.cell order mode := by
  rw [Machine.cell, Machine.cell, h.base_eq hoperand hpointer, h.registers.index_eq]

end Cell

theorem pulled_eq (h : v.Alike T m n) {k : Byte} (hT : T (m.pullCell k)) :
    m.pulled k = n.pulled k := by
  rw [Machine.pulled, Machine.pulled, ← h.registers.offset]
  exact h.memory _ hT

/-! ## What machines that are alike go on with -/

theorem past (h : v.Alike T m n) (i : Instruction) : v.Alike T (m.past i) (n.past i) :=
  ⟨h.registers.advance _, h.memory⟩

theorem setRegisters (h : v.Alike T m n) {r s : Registers} (hr : v.Agree r s) :
    v.Alike T { m with registers := r } { n with registers := s } :=
  ⟨hr, h.memory⟩

theorem goto (h : v.Alike T m n) (a : Word) : v.Alike T (m.goto a) (n.goto a) :=
  h.setRegisters (h.registers.goto a)

/-- Nothing is written. -/
theorem quiet (h : v.Alike T m n) : v.Alike (fun a => T a ∨ a ∈ []) m n :=
  h.mono fun _ ha => ha.resolve_right List.not_mem_nil

/-- A cell that is written holds the same from then on, whatever it held. -/
theorem write (h : v.Alike T m n) (a : Word) (b : Byte) :
    v.Alike (fun c => T c ∨ c ∈ [a]) { m with memory := m.memory.write a b }
      { n with memory := n.memory.write a b } where
  registers := h.registers
  memory c hc := by
    rw [Memory.read_write, Memory.read_write]
    split
    · rfl
    · next hne =>
      exact h.memory c (hc.resolve_right fun hmem => hne (List.mem_singleton.mp hmem).symm)

theorem push (h : v.Alike T m n) (b : Byte) :
    v.Alike (fun c => T c ∨ c ∈ [m.registers.stackCell]) (m.push b) (n.push b) where
  registers := h.registers.push b b
  memory := by
    rw [Machine.push, Machine.push, ← h.registers.stackCell_eq]
    exact (h.write m.registers.stackCell b).memory

/-! ## What an instruction designates -/

theorem byte_eq (h : v.Alike T m n) {op : ReadOp} {source : Source}
    (hread : ∀ a ∈ m.reads order (.read op source), T a) :
    source.byte m order = source.byte n order := by
  obtain ⟨hoperand, hdata⟩ := List.forall_mem_append.mp hread
  cases source with
  | immediate => exact h.operandByte_eq .immediate (by decide) hoperand
  | data mode =>
    obtain ⟨hpointer, hcell⟩ := List.forall_mem_append.mp hdata
    rw [Source.byte, Source.byte, ← h.cell_eq hoperand hpointer]
    exact h.memory _ (hcell _ List.mem_cons_self)

/-- A change in place finds the same byte at the same place. -/
theorem place_eq (h : v.Alike T m n) {op : ModifyOp} {target : Target}
    (hread : ∀ a ∈ m.reads order (.modify op target), T a) :
    target.place m order = target.place n order ∧
      m.get (target.place m order) = n.get (target.place m order) := by
  obtain ⟨hoperand, hdata⟩ := List.forall_mem_append.mp hread
  cases target with
  | accumulator => exact ⟨rfl, h.registers.a⟩
  | data mode =>
    obtain ⟨hpointer, hcell⟩ := List.forall_mem_append.mp hdata
    exact ⟨congrArg Place.cell (h.cell_eq hoperand hpointer),
      h.memory _ (hcell _ List.mem_cons_self)⟩

theorem target_eq (h : v.Alike T m n) {mode : JumpMode}
    (hread : ∀ a ∈ m.reads order (.jmp mode), T a) :
    mode.target m order = mode.target n order := by
  obtain ⟨hoperand, hdata⟩ := List.forall_mem_append.mp hread
  cases mode with
  | absolute => exact h.operandWord_eq (.data .absolute) rfl hoperand
  | indirect =>
    obtain ⟨hfirst, hsecond⟩ := List.forall_mem_cons.mp hdata
    rw [JumpMode.target, JumpMode.target, ← h.operandWord_eq .indirect rfl hoperand,
      Memory.vector, Memory.vector, h.memory _ hfirst, h.memory _ (hsecond _ List.mem_cons_self)]

/-! ## An instruction -/

theorem modify (h : v.Alike T m n) (hv : Flag.consulted ⊆ v.flags) (op : ModifyOp) {place : Place}
    (hold : m.get place = n.get place) :
    v.Alike (fun a => T a ∨ place = .cell a) (m.modify op place) (n.modify op place) := by
  have heffect := h.setRegisters (h.registers.apply
    (op.effect (m.get place) (m.registers.status.has .carry)))
  simp only [Machine.modify]
  rw [← hold, ← h.registers.flag .carry (hv (by decide))]
  cases place with
  | accumulator => exact (heffect.setRegisters (heffect.registers.setA _)).mono (by simp)
  | cell a => exact (heffect.write a _).mono (by simp [eq_comm])

theorem branch (h : v.Alike T m n) (hv : Flag.consulted ⊆ v.flags) (op : BranchOp)
    (offset : Byte) : v.Alike T (m.branch op offset) (n.branch op offset) := by
  simp only [Machine.branch]
  rw [← h.registers.taken_eq hv, ← h.registers.pc]
  split
  · exact h.goto _
  · exact h

theorem pushWord (h : v.Alike T m n) (w : Word) :
    v.Alike (fun a => T a ∨ a ∈ [m.registers.stackCell, stackCellAt (m.registers.sp.low - 1)])
      (m.pushWord w) (n.pushWord w) := by
  refine ((h.push w.high).push w.low).mono fun a ha => ?_
  simpa [Machine.push, or_assoc] using ha

theorem pull (h : v.Alike T m n) (hT : T (m.pullCell 1)) {op : StackOp}
    (hop : op = .pla ∨ op = .plp) : v.Alike T (op.apply m) (op.apply n) := by
  have hpulled := h.pulled_eq hT
  have hpopped := h.registers.setStackOffset (m.registers.sp.low + 1)
  rcases hop with rfl | rfl
  · refine ⟨?_, h.memory⟩
    rw [Machine.registers_pla, Machine.registers_pla, ← h.registers.offset, ← hpulled]
    exact hpopped.loadA _
  · refine ⟨?_, h.memory⟩
    rw [Machine.registers_plp, Machine.registers_plp, ← h.registers.offset, ← hpulled]
    exact hpopped.setStatus fun _ _ => rfl

theorem leave (h : v.Alike T m n) (hT : ∀ a ∈ [m.pullCell 1, m.pullCell 2], T a) :
    v.Alike T m.leave n.leave := by
  obtain ⟨hlow, hhigh⟩ := List.forall_mem_cons.mp hT
  rw [Machine.leave_eq, Machine.leave_eq, ← h.registers.offset, ← h.pulled_eq hlow,
    ← h.pulled_eq (hhigh _ List.mem_cons_self)]
  exact h.setRegisters ((h.registers.setStackOffset _).goto _)

theorem resume (h : v.Alike T m n) (hT : ∀ a ∈ [m.pullCell 1, m.pullCell 2, m.pullCell 3], T a) :
    v.Alike T m.resume n.resume := by
  obtain ⟨hstatus, hrest⟩ := List.forall_mem_cons.mp hT
  obtain ⟨hlow, hhigh⟩ := List.forall_mem_cons.mp hrest
  rw [Machine.resume_eq, Machine.resume_eq, ← h.registers.offset, ← h.pulled_eq hstatus,
    ← h.pulled_eq hlow, ← h.pulled_eq (hhigh _ List.mem_cons_self)]
  exact h.setRegisters (((h.registers.setStackOffset _).setStatus fun _ _ => rfl).goto _)

variable {i : Instruction}

/-- Two machines that are alike where an instruction reads are alike after it, also in the cells
that it writes. Only a push of the status looks at more than the flags that are consulted. -/
theorem execute (h : v.Alike T m n) (hv : Flag.consulted ⊆ v.flags)
    (hread : ∀ a ∈ m.reads order i, T a) (hpush : i = .stack .php → Flag.all ⊆ v.flags) :
    v.Alike (fun a => T a ∨ a ∈ m.writes order i) (m.execute order i) (n.execute order i) := by
  obtain ⟨hoperand, hdata⟩ := List.forall_mem_append.mp hread
  have hpast := h.past i
  cases i with
  | read op source =>
    refine (hpast.setRegisters ?_).quiet
    rw [h.byte_eq hread]
    exact hpast.registers.applyRead hv op _
  | write op mode =>
    -- The cell is not among those that are read, and held anything before.
    simp only [Machine.execute]
    rw [← h.cell_eq hoperand hdata, ← h.registers.value_eq op]
    exact hpast.write _ _
  | modify op target =>
    obtain ⟨hplace, hold⟩ := h.place_eq hread
    simp only [Machine.execute]
    rw [← hplace]
    refine (hpast.modify hv op ?_).mono fun a ha => ?_
    · cases target <;> exact hold
    · cases target <;> simpa [Machine.writes, Target.place, eq_comm] using ha
  | register op => exact (hpast.setRegisters (hpast.registers.applyRegister op)).quiet
  | stack op =>
    cases op with
    | pha =>
      simp only [Machine.execute, StackOp.apply]
      rw [← hpast.registers.a]
      exact hpast.push _
    | php =>
      simp only [Machine.execute, StackOp.apply]
      rw [← hpast.registers.pushedByte_eq (hpush rfl)]
      exact hpast.push _
    | pla => exact (hpast.pull (hdata _ List.mem_cons_self) (.inl rfl)).quiet
    | plp => exact (hpast.pull (hdata _ List.mem_cons_self) (.inr rfl)).quiet
  | branch op =>
    simp only [Machine.execute]
    rw [← h.operandByte_eq .relative (by decide) hoperand]
    exact (hpast.branch hv op _).quiet
  | jmp mode =>
    simp only [Machine.execute]
    rw [← h.target_eq hread]
    exact (hpast.goto _).quiet
  | jsr =>
    simp only [Machine.execute, Machine.call]
    rw [← h.operandWord_eq (.data .absolute) rfl hoperand, ← hpast.registers.pc]
    exact (hpast.pushWord _).goto _
  | rts => exact (hpast.leave hdata).quiet
  | rti => exact (hpast.resume hdata).quiet
  | brk =>
    simp only [Machine.execute]
    rw [← h.registers.pc]
    exact (hpast.goto _).quiet

theorem extraCycles_eq (h : v.Alike T m n) (hv : Flag.consulted ⊆ v.flags)
    (hread : ∀ a ∈ m.reads order i, T a) : m.extraCycles order i = n.extraCycles order i := by
  obtain ⟨hoperand, hdata⟩ := List.forall_mem_append.mp hread
  cases i with
  | read op source =>
    cases source with
    | immediate => rfl
    | data mode =>
      have hpointer := (List.forall_mem_append.mp hdata).1
      rw [Machine.extraCycles, Machine.extraCycles, h.base_eq hoperand hpointer,
        h.cell_eq hoperand hpointer]
  | branch op =>
    have hpast := (h.past (.branch op)).registers
    rw [Machine.extraCycles, Machine.extraCycles, Machine.branchExtra, Machine.branchExtra,
      ← h.operandByte_eq .relative (by decide) hoperand, hpast.taken_eq hv, hpast.pc]
  | write op mode | modify op target | register op | stack op | jmp mode | jsr | rts | rti | brk =>
    rfl

theorem writes_eq (h : v.Alike T m n) (hread : ∀ a ∈ m.reads order i, T a) :
    m.writes order i = n.writes order i := by
  obtain ⟨hoperand, hdata⟩ := List.forall_mem_append.mp hread
  have hstack := h.registers.stackCell_eq
  cases i with
  | write op mode => rw [Machine.writes, Machine.writes, h.cell_eq hoperand hdata]
  | modify op target =>
    cases target with
    | accumulator => rfl
    | data mode =>
      have hpointer := (List.forall_mem_append.mp hdata).1
      rw [Machine.writes, Machine.writes, h.cell_eq hoperand hpointer]
  | stack op =>
    cases op with
    | pha | php => rw [Machine.writes, Machine.writes, hstack]
    | pla | plp => rfl
  | jsr => rw [Machine.writes, Machine.writes, hstack, h.registers.offset]
  | read op source | register op | branch op | jmp mode | rts | rti | brk => rfl

/-! ## A step -/

theorem next?_eq (h : v.Alike T m n) (hread : ∀ a ∈ m.readSet order, T a) : m.next? = n.next? := by
  rw [Machine.next?, Machine.next?, h.opcode_eq (hread _ List.mem_cons_self)]

theorem writeSet_eq (h : v.Alike T m n) (hread : ∀ a ∈ m.readSet order, T a) :
    m.writeSet order = n.writeSet order := by
  rw [Machine.writeSet, Machine.writeSet, ← h.next?_eq hread]
  cases hn : m.next? with
  | none => rfl
  | some e =>
    rw [Machine.readSet, hn] at hread
    exact h.writes_eq (List.forall_mem_cons.mp hread).2

/-- Two machines that are alike where a step reads come to the same result and are alike after it,
also in the cells that it writes. -/
theorem step (h : v.Alike T m n) (hv : Flag.consulted ⊆ v.flags)
    (hread : ∀ a ∈ m.readSet config.order, T a)
    (hpush : m.pushesStatus = true → Flag.all ⊆ v.flags) :
    (Machine.step config m).result = (Machine.step config n).result ∧
      v.Alike (fun a => T a ∨ a ∈ m.writeSet config.order) (Machine.step config m).machine
        (Machine.step config n).machine := by
  have hnext := h.next?_eq hread
  have hopcode := h.opcode_eq (hread _ List.mem_cons_self)
  rw [Machine.writeSet]
  rcases Machine.step_cases config m with ⟨e, hn, hs⟩ | ⟨hn, hp, hs⟩ | ⟨hn, hp, hs⟩
  · rw [Machine.readSet, hn] at hread
    rw [Machine.pushesStatus, hn] at hpush
    have hreads := (List.forall_mem_cons.mp hread).2
    rw [hs, Machine.step_of_next? (hnext.symm.trans hn), hn]
    refine ⟨?_, h.execute hv hreads fun hi => hpush (by simp [hi])⟩
    simp only [Machine.executed, h.extraCycles_eq hv hreads]
  · rw [hs, Machine.step_of_skip (hnext.symm.trans hn) hp, hn]
    exact ⟨rfl, (h.setRegisters (h.registers.advance 1)).quiet⟩
  · rw [hs, Machine.step_of_fault (hnext.symm.trans hn) hp, hn]
    refine ⟨?_, h.quiet⟩
    rw [hopcode, h.registers.pc]

end View.Alike

end M6502
