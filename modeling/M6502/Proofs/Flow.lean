import Mathlib.Algebra.GroupWithZero.Nat
import M6502.Proofs.Operands
import M6502.Proofs.Runs

/-!
# The flow of control

Where the program counter goes. Most instructions lead to the one behind them; a jump, a call, a
return, the software interrupt and a branch lead elsewhere. The address is found from the registers
and the memory before the instruction, so what an instruction writes over itself does not matter,
and a run without any instruction that leads elsewhere goes straight through the memory, wrapping
from the last address to the first.

## Main definitions

* `BranchOp.condition` — the bit of the status that a branch tests, and its value.
* `Machine.operandNumber`, `Machine.pulledNumber` — the word behind the opcode, and the word that is
  pulled after some bytes.
* `Machine.follow` — the address to which an instruction leads.
* `Machine.nextPc` — the address to which a step leads.
* `Machine.redirects`, `Machine.stepLength` — whether a step can lead elsewhere, and how far it
  leads otherwise.

## Main statements

* `Machine.pc_execute` — an instruction leads where `follow` says.
* `Machine.pc_step` — a step leads where `nextPc` says.
* `Machine.pc_step_and_run` — the same, and where a run goes that is not led elsewhere.
-/

namespace M6502

/-- The instructions that can lead elsewhere than to the one behind them. -/
def Instruction.redirects : Instruction → Bool
  | branch _ | jmp _ | jsr | rts | rti | brk => true
  | read .. | write .. | modify .. | register _ | stack _ => false

namespace BranchOp

/-- The condition on which a branch is taken. Bit 7 of the status is the negative flag, bit 6 the
overflow flag, bit 1 the zero flag, and bit 0 the carry. -/
def condition (op : BranchOp) (s : Status) : Bool :=
  match op with
  | bpl => !s.bits.getLsbD 7
  | bmi => s.bits.getLsbD 7
  | bvc => !s.bits.getLsbD 6
  | bvs => s.bits.getLsbD 6
  | bne => !s.bits.getLsbD 1
  | beq => s.bits.getLsbD 1
  | bcc => !s.bits.getLsbD 0
  | bcs => s.bits.getLsbD 0

/-- The branch that is taken on the opposite condition. -/
def opposite : BranchOp → BranchOp
  | bpl => bmi
  | bmi => bpl
  | bvc => bvs
  | bvs => bvc
  | bcc => bcs
  | bcs => bcc
  | bne => beq
  | beq => bne

end BranchOp

namespace Machine

/-- Where a branch at the program counter leads if it is taken. -/
def branchTarget (m : Machine) : Word :=
  m.registers.pc + 2 + .ofInt 16 (signed m.operandByte.toNat)

/-- The byte that the `n`-th pull takes. -/
def pulled (m : Machine) (n : Byte) : Byte :=
  m.memory.read (stackCellAt (m.registers.sp.low + n))

/-- The word behind the opcode, as a number. -/
def operandNumber (m : Machine) (order : ByteOrder) : Nat :=
  order.join (m.memory.byteAt (m.registers.pc.toNat + 1))
    (m.memory.byteAt (m.registers.pc.toNat + 2))

/-- The word that is pulled if `n` bytes have been pulled before it, low byte first. The cells of
page one follow each other in a ring. -/
def pulledNumber (m : Machine) (n : Nat) : Nat :=
  m.memory.byteAt (256 + (m.registers.sp.toNat + n + 1) % 256) +
    256 * m.memory.byteAt (256 + (m.registers.sp.toNat + n + 2) % 256)

/-- The address to which an instruction at the program counter leads. -/
def follow (m : Machine) (order : ByteOrder) (i : Instruction) : Word :=
  match i with
  | .jmp .absolute | .jsr => .ofNat 16 (m.operandNumber order)
  | .jmp .indirect => .ofNat 16 (m.memory.vectorAt order (m.operandNumber order))
  | .rts => .ofNat 16 (m.pulledNumber 0 + 1)
  | .rti => .ofNat 16 (m.pulledNumber 1)
  | .brk => m.registers.pc + 2
  | .branch op =>
    if op.condition m.registers.status then m.branchTarget else m.registers.pc + 2
  | .read .. | .write .. | .modify .. | .register _ | .stack _ =>
    m.registers.pc + .ofNat 16 i.length

/-- The address to which a step leads. -/
def nextPc (m : Machine) (order : ByteOrder) : Word :=
  match m.next? with
  | some e => m.follow order e.instruction
  | none => m.registers.pc + 1

/-- The instruction at the program counter can lead elsewhere than behind itself. -/
def redirects (m : Machine) : Bool := m.next?.any fun e => e.instruction.redirects

/-- The bytes that a step passes over if it does not lead elsewhere. -/
def stepLength (m : Machine) : Nat :=
  match m.next? with
  | some e => e.instruction.length
  | none => 1

end Machine

/-! ## The program counter after an instruction -/

theorem BranchOp.taken_eq_condition (op : BranchOp) (s : Status) :
    op.taken s = op.condition s := by
  cases op <;> simp [taken, flag, wanted, Status.has_eq_getLsbD, Flag.bit, condition]

theorem BranchOp.condition_opposite (op : BranchOp) (s : Status) :
    op.opposite.condition s = !op.condition s := by
  cases op <;> simp [opposite, condition]

theorem signed_eq_toInt (v : Byte) : signed v.toNat = v.toInt := by
  rw [BitVec.toInt_eq_toNat_cond]
  unfold signed
  split <;> split <;> omega

theorem Word.eq_ofNat {w : Word} {n : Nat} (h : w.toNat = n) : w = .ofNat 16 n := by
  rw [← h, BitVec.ofNat_toNat, BitVec.setWidth_eq]

theorem Word.ofSigned_eq_ofInt (v : Byte) : Word.ofSigned v = .ofInt 16 (signed v.toNat) := by
  rw [signed_eq_toInt]
  rfl

@[simp] theorem ReadOp.pc_apply (op : ReadOp) (v : Byte) (r : Registers) :
    (op.apply v r).pc = r.pc := by
  cases op <;> rfl

@[simp] theorem RegisterOp.pc_apply (op : RegisterOp) (r : Registers) :
    (op.apply r).pc = r.pc := by
  cases op <;> rfl

@[simp] theorem StackOp.pc_apply (op : StackOp) (m : Machine) :
    (op.apply m).registers.pc = m.registers.pc := by
  cases op <;> rfl

namespace Machine

variable (m : Machine)

@[simp] theorem pc_modify (op : ModifyOp) (p : Place) :
    (m.modify op p).registers.pc = m.registers.pc := by
  cases p <;> rfl

/-- A return moves the stack pointer past the two bytes of the address that it goes on behind. -/
theorem leave_eq : m.leave =
    let r := m.registers.setStackOffset (m.registers.sp.low + 2)
    { m with registers := { r with pc := .ofBytes (m.pulled 2) (m.pulled 1) + 1 } } := by
  simp [leave, goto, Registers.pullWord, Registers.pull, pulled, Registers.stackCell,
    BitVec.add_assoc]

/-- A return from an interrupt moves the stack pointer past a status and an address. -/
theorem resume_eq : m.resume =
    let r := (m.registers.setStackOffset (m.registers.sp.low + 3)).setStatus
      (.ofPulledByte (m.pulled 1))
    { m with registers := { r with pc := .ofBytes (m.pulled 3) (m.pulled 2) } } := by
  simp [resume, goto, Registers.pullWord, Registers.pull, Registers.setStatus,
    Registers.setStackOffset, pulled, Registers.stackCell, stackCellAt, BitVec.add_assoc]

theorem pc_leave : m.leave.registers.pc = .ofBytes (m.pulled 2) (m.pulled 1) + 1 := by
  rw [leave_eq]

theorem pc_resume : m.resume.registers.pc = .ofBytes (m.pulled 3) (m.pulled 2) := by
  rw [resume_eq]

theorem registers_pla : (StackOp.pla.apply m).registers =
    (m.registers.setStackOffset (m.registers.sp.low + 1)).loadA (m.pulled 1) := by
  simp [StackOp.apply, Registers.pull, pulled, Registers.stackCell]

theorem registers_plp : (StackOp.plp.apply m).registers =
    (m.registers.setStackOffset (m.registers.sp.low + 1)).setStatus
      (.ofPulledByte (m.pulled 1)) := by
  simp [StackOp.apply, Registers.pull, pulled, Registers.stackCell]

theorem toNat_operandWord (order : ByteOrder) :
    (m.operandWord order).toNat = m.operandNumber order := by
  have hfirst : m.operandByte.toNat = m.memory.byteAt (m.registers.pc.toNat + 1) :=
    m.memory.toNat_read_add m.registers.pc 1
  have hsecond : (m.memory.read (m.registers.pc + 2)).toNat =
      m.memory.byteAt (m.registers.pc.toNat + 2) :=
    m.memory.toNat_read_add m.registers.pc 2
  rw [operandWord, order.toNat_word, hfirst, hsecond, operandNumber]

theorem operandWord_eq (order : ByteOrder) :
    m.operandWord order = .ofNat 16 (m.operandNumber order) :=
  Word.eq_ofNat (m.toNat_operandWord order)

/-- A jump leads to the word behind its opcode, or to the vector at that word. -/
theorem target_eq (order : ByteOrder) (mode : JumpMode) :
    mode.target m order = m.follow order (.jmp mode) := by
  cases mode with
  | absolute => exact m.operandWord_eq order
  | indirect =>
    refine Word.eq_ofNat ?_
    rw [JumpMode.target, Memory.toNat_vector, toNat_operandWord]

theorem toNat_pulled (n : Byte) :
    (m.pulled n).toNat = m.memory.byteAt (256 + (m.registers.sp.toNat + n.toNat) % 256) := by
  rw [pulled, Memory.toNat_read, stackCellAt, Word.toNat_ofBytes, toNat_add_byte, Word.toNat_low,
    Nat.mod_add_mod]
  rfl

/-- Two bytes that are pulled one after the other make a word. -/
theorem ofBytes_pulled {high low : Byte} {n : Nat} (hlow : low.toNat = n + 1)
    (hhigh : high.toNat = n + 2) :
    Word.ofBytes (m.pulled high) (m.pulled low) = .ofNat 16 (m.pulledNumber n) := by
  refine Word.eq_ofNat ?_
  rw [Word.toNat_ofBytes, toNat_pulled, toNat_pulled, hlow, hhigh, pulledNumber, Nat.add_comm]
  rfl

theorem branchTarget_eq : m.branchTarget = m.registers.pc + 2 + .ofSigned m.operandByte := by
  rw [branchTarget, Word.ofSigned_eq_ofInt]

theorem pc_branch (op : BranchOp) (order : ByteOrder) :
    ((m.past (.branch op)).branch op m.operandByte).registers.pc = m.follow order (.branch op) := by
  have hstatus : (m.past (.branch op)).registers.status = m.registers.status := rfl
  rw [follow, branchTarget_eq, ← op.taken_eq_condition, branch, hstatus]
  cases op.taken m.registers.status <;> rfl

/-- An instruction leads where `follow` says. -/
theorem pc_execute (order : ByteOrder) (i : Instruction) :
    (m.execute order i).registers.pc = m.follow order i := by
  cases i with
  | read op source => exact op.pc_apply _ _
  | write op mode => rfl
  | modify op target => exact pc_modify _ op _
  | register op => exact op.pc_apply _
  | stack op => exact op.pc_apply _
  | branch op => exact m.pc_branch op order
  | jmp mode => exact m.target_eq order mode
  | jsr => exact m.operandWord_eq order
  | rts =>
    have hword : Word.ofBytes (m.pulled 2) (m.pulled 1) = .ofNat 16 (m.pulledNumber 0) :=
      m.ofBytes_pulled rfl rfl
    rw [follow, BitVec.ofNat_add, ← hword]
    exact pc_leave _
  | rti =>
    have hword : Word.ofBytes (m.pulled 3) (m.pulled 2) = .ofNat 16 (m.pulledNumber 1) :=
      m.ofBytes_pulled rfl rfl
    rw [follow, ← hword]
    exact pc_resume _
  | brk => rfl

/-! ## Steps and runs -/

variable {m} {config : Config}

/-- A step that succeeds leads where `nextPc` says. -/
theorem pc_step {cycles : Nat} (h : (step config m).result = .ok cycles) :
    (step config m).machine.registers.pc = m.nextPc config.order := by
  rcases step_cases config m with ⟨e, hn, hs⟩ | ⟨hn, -, hs⟩ | ⟨-, -, hs⟩
  · rw [hs, nextPc, hn]
    exact m.pc_execute config.order e.instruction
  · rw [hs, nextPc, hn]
    rfl
  · rw [hs] at h
    cases h

/-- A step that is not led elsewhere passes over its own bytes. -/
theorem nextPc_of_not_redirects (h : m.redirects = false) (order : ByteOrder) :
    m.nextPc order = m.registers.pc + .ofNat 16 m.stepLength := by
  unfold nextPc stepLength
  cases hn : m.next? with
  | none => rfl
  | some e =>
    have hi : e.instruction.redirects = false := by simpa [redirects, hn] using h
    simp only
    cases he : e.instruction with
    | read op source | write op mode | modify op target | register op | stack op => rfl
    | branch op | jmp mode | jsr | rts | rti | brk =>
      rw [he] at hi
      cases hi

/-- A run that is never led elsewhere ends behind all the bytes it passed over. -/
theorem pc_run_of_not_redirects (n : Nat) (m : Machine)
    (h : ∀ v ∈ visited config n m, v.redirects = false) :
    (run config n m).machine.registers.pc.toNat =
      (m.registers.pc.toNat + ((visited config n m).map stepLength).sum) % 65536 := by
  refine run_induction config (P := fun m vs last => (∀ v ∈ vs, v.redirects = false) →
    last.registers.pc.toNat = (m.registers.pc.toNat + (vs.map stepLength).sum) % 65536)
    ?stop ?go n m h
  case stop =>
    intro m _
    have hpc := m.registers.pc.isLt
    simp only [List.map_nil, List.sum_nil]
    omega
  case go =>
    intro m cycles rest last hok ih hvs
    have hm : m.redirects = false := hvs m List.mem_cons_self
    have hrest := ih fun v hv => hvs v (List.mem_cons_of_mem m hv)
    rw [hrest, pc_step hok, nextPc_of_not_redirects hm, BitVec.toNat_add, BitVec.toNat_ofNat,
      List.map_cons, List.sum_cons]
    omega

end Machine

namespace Machine

/-- Where the program counter goes. A step that succeeds leads to the address that is found from the
machine before it. A branch is taken on the condition that its name says, and of the two branches on
a flag exactly one is taken. And a run in which no instruction can lead elsewhere ends as far behind
its start as the executed instructions are long, also if they write over themselves. -/
theorem pc_step_and_run (config : Config) (m : Machine) :
    (∀ cycles, (step config m).result = .ok cycles →
      (step config m).machine.registers.pc = m.nextPc config.order) ∧
    (∀ op : BranchOp, op.taken m.registers.status = op.condition m.registers.status ∧
      op.opposite.taken m.registers.status = !op.taken m.registers.status) ∧
    ∀ n, (∀ v ∈ visited config n m, v.redirects = false) →
      (run config n m).machine.registers.pc.toNat =
        (m.registers.pc.toNat + ((visited config n m).map stepLength).sum) % 65536 := by
  refine ⟨fun _ h => pc_step h, fun op => ⟨op.taken_eq_condition _, ?_⟩,
    fun n h => pc_run_of_not_redirects n m h⟩
  rw [op.taken_eq_condition, op.opposite.taken_eq_condition, op.condition_opposite]

/-- A store over the opcode that comes next, behind an instruction that goes on at the first
address: without the store that opcode would be a fault. And a jump through a vector at the end of a
page: its second byte is the opcode of the jump, with which the page begins. -/
theorem pc_run_of_overwritten_opcode :
    let m : Machine := ⟨{ Registers.powerOn with a := 0xEA, pc := 0xFFFE },
      Memory.blank.load 0xFFFE [0x8D, 0x01, 0x00, 0x02]⟩
    let jump : Machine := ⟨{ Registers.powerOn with pc := 0x0200 },
      (Memory.blank.load 0x0200 [0x6C, 0xFF, 0x02]).write 0x02FF 0x34⟩
    (run ⟨.fault, .lowFirst⟩ 2 m).machine.registers.pc.toNat = 2 ∧
      (step .hardware jump).machine.registers.pc = 0x6C34 := by
  intro m jump
  have hstraight : ∀ v ∈ visited ⟨.fault, .lowFirst⟩ 2 m, v.redirects = false := by
    decide +kernel
  have hlength : ((visited ⟨.fault, .lowFirst⟩ 2 m).map stepLength).sum = 4 := by
    decide +kernel
  obtain ⟨-, -, hrun⟩ := pc_step_and_run ⟨.fault, .lowFirst⟩ m
  obtain ⟨hstep, -, -⟩ := pc_step_and_run .hardware jump
  have hn : jump.next? = some ⟨0x6C, .jmp .indirect, 5⟩ := by decide +kernel
  have hjump : (step .hardware jump).result = .ok 5 := by
    rw [step_of_next? hn]
    rfl
  constructor
  · rw [hrun 2 hstraight, hlength]
    decide
  · rw [hstep 5 hjump]
    decide +kernel

end Machine

end M6502
