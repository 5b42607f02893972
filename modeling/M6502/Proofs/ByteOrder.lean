import M6502.Proofs.Reads

/-!
# The two byte orders

The order in which the two bytes of a word stand decides how the operand of an absolute mode is
read, and the vector of an indirect jump, and nothing else. So a processor of one order does to a
program what a processor of the other order does to the same program with the two bytes exchanged,
as long as the instruction does not use these bytes in another way as well. An instruction without
a word among its operands does the same in both orders.

## Main definitions

* `ByteOrder.reverse`, `Config.reversed` — the other order.
* `Memory.exchange`, `Machine.exchange`, `Outcome.exchange` — two cells exchanged.
* `Mode.holdsWord` — the modes with a word among the operand bytes.

## Main statements

* `Machine.execute_reverse` — an instruction without a word is the same in both orders.
* `Machine.execute_exchange`, `Machine.execute_exchange_vector` — an instruction with a word, in the
  other order and on exchanged bytes.
* `Machine.step_reversed` — the same of a step.
-/

namespace M6502

/-! ## The other order -/

def ByteOrder.reverse : ByteOrder → ByteOrder
  | highFirst => lowFirst
  | lowFirst => highFirst

theorem ByteOrder.word_reverse (order : ByteOrder) (first second : Byte) :
    order.reverse.word first second = order.word second first := by
  cases order <;> rfl

/-- The same policy with the other order. -/
def Config.reversed (config : Config) : Config := { config with order := config.order.reverse }

@[simp] theorem Config.order_reversed (config : Config) :
    config.reversed.order = config.order.reverse := rfl

/-- The data modes whose operand bytes are a word. -/
def DataMode.holdsWord : DataMode → Bool
  | absolute | absoluteX | absoluteY => true
  | zeroPage | zeroPageX | zeroPageY | indirectX | indirectY => false

/-- The modes whose operand bytes are a word. -/
def Mode.holdsWord : Mode → Bool
  | data mode => mode.holdsWord
  | indirect => true
  | implied | accumulator | immediate | relative => false

/-- Only a jump goes through a vector. -/
theorem Instruction.eq_jmp_of_mode {i : Instruction} (h : i.mode = .indirect) :
    i = .jmp .indirect := by
  cases i with
  | jmp mode =>
    cases mode with
    | absolute => cases h
    | indirect => rfl
  | read op source => cases source <;> cases h
  | modify op target => cases target <;> cases h
  | write op mode | register op | stack op | branch op | jsr | rts | rti | brk => cases h

/-! ## Cells that are exchanged -/

namespace Memory

/-- The memory with the bytes of two cells exchanged. -/
def exchange (mem : Memory) (a b : Word) : Memory := (mem.write a (mem.read b)).write b (mem.read a)

theorem read_exchange (mem : Memory) (a b c : Word) :
    (mem.exchange a b).read c =
      if b = c then mem.read a else if a = c then mem.read b else mem.read c := by
  rw [exchange, read_write, read_write]

@[simp] theorem read_exchange_left (mem : Memory) (a b : Word) :
    (mem.exchange a b).read a = mem.read b := by
  rw [read_exchange]
  split
  · next h => rw [h]
  · exact if_pos rfl

@[simp] theorem read_exchange_right (mem : Memory) (a b : Word) :
    (mem.exchange a b).read b = mem.read a := by
  rw [read_exchange, if_pos rfl]

theorem read_exchange_of_ne (mem : Memory) {a b c : Word} (h : c ≠ a ∧ c ≠ b) :
    (mem.exchange a b).read c = mem.read c := by
  rw [read_exchange, if_neg h.2.symm, if_neg h.1.symm]

/-- Read in the other order, the bytes of a vector have to be exchanged to lead to the same
target. -/
theorem vector_exchange (mem : Memory) (order : ByteOrder) (a : Word) :
    (mem.exchange a a.nextInPage).vector order.reverse a = mem.vector order a := by
  rw [vector, vector, read_exchange_left, read_exchange_right, ByteOrder.word_reverse]

theorem vector_exchange_of_ne (mem : Memory) (order : ByteOrder) {a b v : Word}
    (h : ∀ c ∈ [v, v.nextInPage], c ≠ a ∧ c ≠ b) :
    (mem.exchange a b).vector order v = mem.vector order v := by
  obtain ⟨hfirst, hnext⟩ := List.forall_mem_cons.mp h
  rw [vector, vector, mem.read_exchange_of_ne hfirst,
    mem.read_exchange_of_ne (hnext _ List.mem_cons_self)]

/-- A write to a third cell does not care for the exchange. -/
theorem write_exchange (mem : Memory) {a b c : Word} (h : c ≠ a ∧ c ≠ b) (v : Byte) :
    (mem.exchange a b).write c v = (mem.write c v).exchange a b := by
  obtain ⟨ha, hb⟩ := h
  refine ext_read fun d => ?_
  simp only [read_write, read_exchange, if_neg ha, if_neg hb]
  by_cases hc : c = d
  · rw [← hc, if_pos rfl, if_neg hb.symm, if_neg ha.symm, if_pos rfl]
  · rw [if_neg hc, if_neg hc]

end Memory

namespace Machine

/-- The machine with the bytes of two cells exchanged. -/
def exchange (m : Machine) (a b : Word) : Machine := { m with memory := m.memory.exchange a b }

@[simp] theorem registers_exchange (m : Machine) (a b : Word) :
    (m.exchange a b).registers = m.registers := rfl

theorem push_exchange (m : Machine) {a b : Word}
    (h : m.registers.stackCell ≠ a ∧ m.registers.stackCell ≠ b) (v : Byte) :
    (m.exchange a b).push v = (m.push v).exchange a b := by
  rw [push, push, exchange, exchange, Memory.write_exchange _ h]

theorem pushWord_exchange (m : Machine) {a b : Word}
    (hhigh : m.registers.stackCell ≠ a ∧ m.registers.stackCell ≠ b)
    (hlow : stackCellAt (m.registers.sp.low - 1) ≠ a ∧ stackCellAt (m.registers.sp.low - 1) ≠ b)
    (w : Word) : (m.exchange a b).pushWord w = (m.pushWord w).exchange a b := by
  have hcell : (m.push w.high).registers.stackCell = stackCellAt (m.registers.sp.low - 1) :=
    Registers.stackCell_setStackOffset _ _
  rw [← hcell] at hlow
  rw [pushWord, pushWord, m.push_exchange hhigh, push_exchange _ hlow]

theorem modify_cell_exchange (m : Machine) (op : ModifyOp) {a b c : Word} (h : c ≠ a ∧ c ≠ b) :
    (m.exchange a b).modify op (.cell c) = (m.modify op (.cell c)).exchange a b := by
  have hold : (m.exchange a b).get (.cell c) = m.get (.cell c) := m.memory.read_exchange_of_ne h
  rw [modify, modify, hold, exchange, exchange]
  exact congrArg (Machine.mk _) (m.memory.write_exchange h _)

end Machine

/-- The same outcome with two cells of the machine exchanged. -/
def Outcome.exchange (o : Outcome) (a b : Word) : Outcome :=
  { o with machine := o.machine.exchange a b }

namespace Machine

variable (m : Machine) (order : ByteOrder)

/-! ## Instructions without a word -/

theorem base_reverse {mode : DataMode} (h : mode.holdsWord = false) :
    m.base order.reverse mode = m.base order mode := by
  cases mode with
  | zeroPage | zeroPageX | zeroPageY | indirectX | indirectY => rfl
  | absolute | absoluteX | absoluteY => cases h

theorem cell_reverse {mode : DataMode} (h : mode.holdsWord = false) :
    m.cell order.reverse mode = m.cell order mode := by
  rw [cell, cell, m.base_reverse order h]

/-- An instruction without a word among its operands does the same in both orders. -/
theorem execute_reverse {i : Instruction} (h : i.mode.holdsWord = false) :
    m.execute order.reverse i = m.execute order i := by
  cases i with
  | read op source =>
    cases source with
    | immediate => rfl
    | data mode => simp only [execute, Source.byte, m.cell_reverse order h]
  | write op mode => simp only [execute, m.cell_reverse order h]
  | modify op target =>
    cases target with
    | accumulator => rfl
    | data mode => simp only [execute, Target.place, m.cell_reverse order h]
  | jmp mode => cases mode <;> cases h
  | jsr => cases h
  | register op | stack op | branch op | rts | rti | brk => rfl

theorem extraCycles_reverse {i : Instruction} (h : i.mode.holdsWord = false) :
    m.extraCycles order.reverse i = m.extraCycles order i := by
  cases i with
  | read op source =>
    cases source with
    | immediate => rfl
    | data mode => simp only [extraCycles, m.base_reverse order h, m.cell_reverse order h]
  | write op mode | modify op target | register op | stack op | branch op | jmp mode | jsr | rts
  | rti | brk => rfl

/-! ## Instructions with a word -/

/-- The base of an absolute mode is the word after the opcode. -/
theorem base_of_holdsWord {mode : DataMode} (h : mode.holdsWord = true) :
    m.base order mode = m.operandWord order := by
  cases mode with
  | absolute | absoluteX | absoluteY =>
    simp [base, DataMode.base, operandWord, operandByte, pastOpcode, Registers.advance,
      BitVec.add_assoc]
  | zeroPage | zeroPageX | zeroPageY | indirectX | indirectY => cases h

/-- Read in the other order, the operand bytes have to be exchanged to be the same word. -/
theorem operandWord_exchange :
    (m.exchange (m.registers.pc + 1) (m.registers.pc + 2)).operandWord order.reverse =
      m.operandWord order := by
  simp only [operandWord, operandByte, exchange, Memory.read_exchange_left,
    Memory.read_exchange_right, ByteOrder.word_reverse]

section Word

variable {m order} {other : ByteOrder} {a b : Word}
  (hword : (m.exchange a b).operandWord other = m.operandWord order)
include hword

theorem base_exchange {mode : DataMode} (h : mode.holdsWord = true) :
    (m.exchange a b).base other mode = m.base order mode := by
  rw [base_of_holdsWord _ _ h, base_of_holdsWord _ _ h, hword]

theorem cell_exchange {mode : DataMode} (h : mode.holdsWord = true) :
    (m.exchange a b).cell other mode = m.cell order mode := by
  rw [cell, cell, base_exchange hword h, registers_exchange]

/-- An instruction that finds the same word on exchanged cells does the same to them, unless it uses
one of the cells for its data or for the stack. -/
theorem execute_exchange {i : Instruction} {mode : DataMode} (hi : i.mode = .data mode)
    (hmode : mode.holdsWord = true)
    (hfree : ∀ c ∈ m.dataReads order i ++ m.writes order i, c ≠ a ∧ c ≠ b) :
    (m.exchange a b).execute other i = (m.execute order i).exchange a b := by
  obtain ⟨hreads, hwrites⟩ := List.forall_mem_append.mp hfree
  have hcell := cell_exchange hword hmode
  cases i with
  | read op source =>
    cases source with
    | immediate => cases hi
    | data _ =>
      cases hi
      have hdata := (List.forall_mem_append.mp hreads).2 _ List.mem_cons_self
      have hbyte : (Source.data mode).byte (m.exchange a b) other =
          (Source.data mode).byte m order := by
        rw [Source.byte, hcell]
        exact m.memory.read_exchange_of_ne hdata
      simp only [execute, hbyte]
      rfl
  | write op _ =>
    cases hi
    simp only [execute, hcell]
    exact congrArg (Machine.mk _) (m.memory.write_exchange (hwrites _ List.mem_cons_self) _)
  | modify op target =>
    cases target with
    | accumulator => cases hi
    | data _ =>
      cases hi
      simp only [execute, Target.place, hcell]
      exact (m.past _).modify_cell_exchange op (hwrites _ List.mem_cons_self)
  | jmp mode =>
    cases mode with
    | indirect => cases hi
    | absolute =>
      simp only [execute, JumpMode.target, hword]
      rfl
  | jsr =>
    obtain ⟨hfirst, hsecond⟩ := List.forall_mem_cons.mp hwrites
    simp only [execute, call, hword]
    have hpush := (m.past .jsr).pushWord_exchange hfirst (hsecond _ List.mem_cons_self)
    exact congrArg (goto · (m.operandWord order)) (hpush _)
  | register op | stack op | branch op | rts | rti | brk => cases hi

theorem extraCycles_exchange {i : Instruction} {mode : DataMode} (hi : i.mode = .data mode)
    (hmode : mode.holdsWord = true) :
    (m.exchange a b).extraCycles other i = m.extraCycles order i := by
  cases i with
  | read op source =>
    cases source with
    | immediate => rfl
    | data _ =>
      cases hi
      simp only [extraCycles, base_exchange hword hmode, cell_exchange hword hmode]
  | branch op => cases hi
  | write op _ | modify op target | register op | stack op | jmp mode | jsr | rts | rti | brk => rfl

end Word

/-! ## Jumps through a vector -/

theorem operandWord_exchange_of_ne {a b : Word}
    (hfirst : m.registers.pc + 1 ≠ a ∧ m.registers.pc + 1 ≠ b)
    (hsecond : m.registers.pc + 2 ≠ a ∧ m.registers.pc + 2 ≠ b) :
    (m.exchange a b).operandWord order = m.operandWord order := by
  simp only [operandWord, operandByte, exchange, Memory.read_exchange_of_ne _ hfirst,
    Memory.read_exchange_of_ne _ hsecond]

section Vector

variable {m order} {v : Word} (hv : v = m.operandWord order)
  (hfree : ∀ c ∈ [v, v.nextInPage], c ≠ m.registers.pc + 1 ∧ c ≠ m.registers.pc + 2)
include hv hfree

/-- Read in the other order, the bytes of the vector have to be exchanged as well. -/
theorem target_exchange_vector :
    JumpMode.indirect.target ((m.exchange (m.registers.pc + 1) (m.registers.pc + 2)).exchange v
      v.nextInPage) order.reverse = JumpMode.indirect.target m order := by
  obtain ⟨hfirst, hnext⟩ := List.forall_mem_cons.mp hfree
  have hsecond := hnext _ List.mem_cons_self
  have hword : ((m.exchange (m.registers.pc + 1) (m.registers.pc + 2)).exchange v
      v.nextInPage).operandWord order.reverse = v := by
    rw [operandWord_exchange_of_ne, operandWord_exchange, ← hv]
    · exact ⟨hfirst.1.symm, hsecond.1.symm⟩
    · exact ⟨hfirst.2.symm, hsecond.2.symm⟩
  rw [JumpMode.target, hword, JumpMode.target, ← hv]
  exact (Memory.vector_exchange _ order v).trans (Memory.vector_exchange_of_ne _ order hfree)

/-- A jump through a vector, in the other order and with the bytes of its operand and of the vector
exchanged. -/
theorem execute_exchange_vector :
    ((m.exchange (m.registers.pc + 1) (m.registers.pc + 2)).exchange v v.nextInPage).execute
        order.reverse (.jmp .indirect) =
      ((m.execute order (.jmp .indirect)).exchange (m.registers.pc + 1)
        (m.registers.pc + 2)).exchange v v.nextInPage := by
  simp only [execute, target_exchange_vector hv hfree]
  rfl

end Vector

/-! ## A step -/

theorem opcode_exchange {a b : Word} (h : m.registers.pc ≠ a ∧ m.registers.pc ≠ b) :
    (m.exchange a b).opcode = m.opcode :=
  m.memory.read_exchange_of_ne h

/-- The bytes of an operand are not the opcode. -/
theorem pc_ne_operand :
    m.registers.pc ≠ m.registers.pc + 1 ∧ m.registers.pc ≠ m.registers.pc + 2 := by
  constructor <;> bv_omega

variable {m}

/-- A change of the memory that commutes with an instruction commutes with its step, if it leaves
the opcode and the time as they are. -/
theorem step_reversed_of_execute {f : Machine → Machine}
    (hf : ∀ m, (f m).registers = m.registers) (config : Config) {e : Encoding}
    (hn : m.next? = some e) (hopcode : (f m).opcode = m.opcode)
    (hextra : (f m).extraCycles config.order.reverse e.instruction =
      m.extraCycles config.order e.instruction)
    (hafter : (f m).execute config.order.reverse e.instruction =
      f (m.execute config.order e.instruction)) :
    step config.reversed (f m) =
      { step config m with machine := f (step config m).machine } := by
  have hnext : (f m).next? = some e := (congrArg decode hopcode).trans hn
  have hannouncement : (f m).announcement e.instruction = m.announcement e.instruction := by
    simp only [announcement, hf]
  rw [step_of_next? hn, step_of_next? hnext, Config.order_reversed]
  simp only [executed, hextra, hafter, hannouncement, hf, hopcode]

/-- Without a word among the operands, a step is the same in both orders. -/
theorem step_reversed_of_not_holdsWord (config : Config)
    (h : ∀ e, m.next? = some e → e.instruction.mode.holdsWord = false) :
    step config.reversed m = step config m := by
  cases hn : m.next? with
  | none => simp only [step, hn, Config.reversed]
  | some e =>
    have hextra := m.extraCycles_reverse config.order (h e hn)
    have hafter := m.execute_reverse config.order (h e hn)
    exact step_reversed_of_execute (f := id) (fun _ => rfl) config hn rfl hextra hafter

/-- With a word for the address, a step in the other order needs the two bytes of the word
exchanged. -/
theorem step_reversed_exchange (config : Config) {e : Encoding} {mode : DataMode}
    (hn : m.next? = some e) (hi : e.instruction.mode = .data mode) (hmode : mode.holdsWord = true)
    (hfree : ∀ c ∈ m.dataReads config.order e.instruction ++ m.writes config.order e.instruction,
      c ≠ m.registers.pc + 1 ∧ c ≠ m.registers.pc + 2) :
    step config.reversed (m.exchange (m.registers.pc + 1) (m.registers.pc + 2)) =
      (step config m).exchange (m.registers.pc + 1) (m.registers.pc + 2) := by
  have hword := m.operandWord_exchange config.order
  exact step_reversed_of_execute (f := (·.exchange _ _)) (fun _ => rfl) config hn
    (m.opcode_exchange m.pc_ne_operand) (extraCycles_exchange hword hi hmode)
    (execute_exchange hword hi hmode hfree)

/-- With a vector, a step in the other order needs the two bytes of the vector exchanged as well. -/
theorem step_reversed_exchange_vector (config : Config) {e : Encoding} {v : Word}
    (hn : m.next? = some e) (hmode : e.instruction.mode = .indirect)
    (hv : v = m.operandWord config.order)
    (hfree : ∀ c ∈ [v, v.nextInPage], c ≠ m.registers.pc ∧ c ≠ m.registers.pc + 1 ∧
      c ≠ m.registers.pc + 2) :
    step config.reversed
        ((m.exchange (m.registers.pc + 1) (m.registers.pc + 2)).exchange v v.nextInPage) =
      ((step config m).exchange (m.registers.pc + 1) (m.registers.pc + 2)).exchange v
        v.nextInPage := by
  have hi := Instruction.eq_jmp_of_mode hmode
  obtain ⟨hfirst, hnext⟩ := List.forall_mem_cons.mp hfree
  have hpc : m.registers.pc ≠ v ∧ m.registers.pc ≠ v.nextInPage :=
    ⟨hfirst.1.symm, (hnext _ List.mem_cons_self).1.symm⟩
  have hopcode : ((m.exchange (m.registers.pc + 1) (m.registers.pc + 2)).exchange v
      v.nextInPage).opcode = m.opcode :=
    (opcode_exchange (m.exchange _ _) hpc).trans (m.opcode_exchange m.pc_ne_operand)
  have hafter := execute_exchange_vector hv fun c hc => (hfree c hc).2
  rw [← hi] at hafter
  refine step_reversed_of_execute (f := fun m => (m.exchange _ _).exchange _ _) (fun _ => rfl)
    config hn hopcode ?_ hafter
  rw [hi]
  rfl

/-- The two byte orders are one machine up to the exchange of bytes. Without a word among its
operand bytes, an instruction does the same in both orders, and so does an undocumented opcode. With
a word for its address, a step in the other order on the machine with the two operand bytes
exchanged comes to the same, with the same two bytes exchanged at the end; the data cell and the
cells that a call pushes to must be other cells. For a jump through a vector the two bytes of the
vector have to be exchanged as well, and must be no bytes of the jump itself. -/
theorem step_reversed (config : Config) (m : Machine) :
    let first := m.registers.pc + 1
    let second := m.registers.pc + 2
    ((∀ e, m.next? = some e → e.instruction.mode.holdsWord = false) →
      step config.reversed m = step config m) ∧
    (∀ e mode, m.next? = some e → e.instruction.mode = .data mode → mode.holdsWord = true →
      (∀ c ∈ m.dataReads config.order e.instruction ++ m.writes config.order e.instruction,
        c ≠ first ∧ c ≠ second) →
      step config.reversed (m.exchange first second) = (step config m).exchange first second) ∧
    ∀ e, m.next? = some e → e.instruction.mode = .indirect →
      let v := m.operandWord config.order
      (∀ c ∈ [v, v.nextInPage], c ≠ m.registers.pc ∧ c ≠ first ∧ c ≠ second) →
      step config.reversed ((m.exchange first second).exchange v v.nextInPage) =
        ((step config m).exchange first second).exchange v v.nextInPage :=
  ⟨fun h => step_reversed_of_not_holdsWord config h,
    fun _ _ hn hi hmode hfree => step_reversed_exchange config hn hi hmode hfree,
    fun _ hn hmode hfree => step_reversed_exchange_vector config hn hmode rfl hfree⟩

/-- A load through a pointer of page zero; a call that wraps past the last address, with a stack
pointer outside page one; and a jump through a vector that continues at the start of its page. -/
theorem step_reversed_of_wrapped_words :
    let low : Config := ⟨.fault, .lowFirst⟩
    let load : Machine := ⟨{ Registers.powerOn with pc := 0x0200 },
      ((Memory.blank.load 0x0200 [0xB1, 0x10]).load 0x0010 [0x34, 0x12]).write 0x1234 0x77⟩
    let call : Machine := ⟨{ Registers.powerOn with sp := 0x0300, pc := 0xFFFE },
      Memory.blank.load 0xFFFE [0x20, 0x12, 0x34]⟩
    let jump : Machine := ⟨{ Registers.powerOn with pc := 0x0300 },
      (Memory.blank.load 0x02FF [0x12, 0x6C, 0x02, 0xFF]).write 0x0200 0x34⟩
    let called := step low (call.exchange 0xFFFF 0x0000)
    let jumped := step low ((jump.exchange 0x0301 0x0302).exchange 0x02FF 0x0200)
    (step low load).machine.registers.a = 0x77 ∧ called.machine.registers.pc = 0x1234 ∧
      called.machine.memory.read 0xFFFF = 0x34 ∧ jumped.machine.registers.pc = 0x1234 := by
  intro low load call jump called jumped
  have hload : ∀ e, load.next? = some e → e.instruction.mode.holdsWord = false := by
    decide +kernel
  have hcall : call.next? = some ⟨0x20, .jsr, 6⟩ := by decide +kernel
  have hstack : (call.dataReads .highFirst .jsr ++ call.writes .highFirst .jsr).all
      (fun c => c ≠ 0xFFFF ∧ c ≠ 0x0000) = true := by decide +kernel
  have hjump : jump.next? = some ⟨0x6C, .jmp .indirect, 5⟩ := by decide +kernel
  have hvector : jump.operandWord Config.standard.order = 0x02FF := by decide +kernel
  have hcells : [(0x02FF : Word), Word.nextInPage 0x02FF].all
      (fun c => c ≠ 0x0300 ∧ c ≠ 0x0301 ∧ c ≠ 0x0302) = true := by decide +kernel
  have hcallpc : call.registers.pc + 1 = 0xFFFF ∧ call.registers.pc + 2 = 0x0000 := by decide
  have hjumppc : jump.registers.pc = 0x0300 ∧ jump.registers.pc + 1 = 0x0301 ∧
    jump.registers.pc + 2 = 0x0302 := by decide
  obtain ⟨hsame, -, -⟩ := step_reversed .standard load
  obtain ⟨-, hcalled, -⟩ := step_reversed .standard call
  obtain ⟨-, -, hjumped⟩ := step_reversed .standard jump
  rw [hcallpc.1, hcallpc.2] at hcalled
  rw [hjumppc.2.1, hjumppc.2.2, hjumppc.1, hvector] at hjumped
  have hloaded : step low load = step .standard load := hsame hload
  have hcalled : called = (step .standard call).exchange 0xFFFF 0x0000 :=
    hcalled _ .absolute hcall rfl rfl
      fun c hc => of_decide_eq_true (List.all_eq_true.mp hstack c hc)
  have hjumped : jumped = ((step .standard jump).exchange 0x0301 0x0302).exchange 0x02FF 0x0200 :=
    hjumped _ hjump rfl fun c hc => of_decide_eq_true (List.all_eq_true.mp hcells c hc)
  rw [hloaded, hcalled, hjumped]
  decide +kernel

end Machine

end M6502
