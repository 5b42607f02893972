import M6502.Proofs.Flow

/-!
# The time of an instruction

How many cycles a documented opcode takes, as one law about its instruction, the page that an index
leaves, and the page that a branch leaves. The instruction set, the kinds of access, and the two
rules that add cycles come together to it.

## Main definitions

* `DataMode.weight`, `Instruction.weight` — the cycles if an index crosses a page.
* `Machine.staysInPage` — the index of a mode does not lead to another page.
* `Machine.time` — the law.

## Main statements

* `cycles_eq_leastTime` — the instruction set states the least time of every instruction.
* `Machine.leastTime_add_extraCycles` — with what is added it comes to the law.
* `Machine.result_step_eq_time` — the cycles that a step returns.
-/

namespace M6502

/-- The cycles of reading or writing a data cell, if an index crosses a page. -/
def DataMode.weight : DataMode → Nat
  | zeroPage => 3
  | zeroPageX | zeroPageY | absolute => 4
  | absoluteX | absoluteY => 5
  | indirectX | indirectY => 6

/-- The cycles of reading a byte, if an index crosses a page. -/
def Source.weight : Source → Nat
  | immediate => 2
  | data mode => mode.weight

/-- The cycles of an instruction, if an index crosses a page and a branch is not taken. -/
def Instruction.weight : Instruction → Nat
  | read _ source => source.weight
  | write _ mode => mode.weight
  | modify _ .accumulator => 2
  | modify _ (.data mode) => mode.weight + 2
  | register _ | branch _ => 2
  | stack .pha | stack .php => 3
  | stack .pla | stack .plp => 4
  | jmp .absolute => 3
  | jmp .indirect => 5
  | jsr | rts | rti => 6
  | brk => 7

namespace Machine

variable (m : Machine) (order : ByteOrder)

/-- The address before an index is added to it, as a number. -/
def baseNumber (mode : DataMode) : Nat :=
  mode.baseNumber order m.memory m.pastOpcode.registers

/-- The index of a mode is added to a base address and does not carry out of its low byte. -/
def staysInPage (mode : DataMode) : Bool :=
  match mode with
  | .absoluteX => decide (m.baseNumber order .absoluteX % 256 + m.registers.x.toNat < 256)
  | .absoluteY => decide (m.baseNumber order .absoluteY % 256 + m.registers.y.toNat < 256)
  | .indirectY => decide (m.baseNumber order .indirectY % 256 + m.registers.y.toNat < 256)
  | .zeroPage | .zeroPageX | .zeroPageY | .absolute | .indirectX => false

/-- The cycles of an instruction at the program counter. -/
def time (i : Instruction) : Nat :=
  match i with
  | .read _ (.data mode) => if m.staysInPage order mode then mode.weight - 1 else mode.weight
  | .branch op =>
    if op.condition m.registers.status then
      if (m.registers.pc + 2).toNat / 256 = m.branchTarget.toNat / 256 then 3 else 4
    else 2
  | i => i.weight

end Machine

/-! ## What the instruction set states -/

/-- The cycles of an instruction, if an index stays in its page and a branch is not taken. -/
def Instruction.leastTime (i : Instruction) : Nat :=
  match i with
  | read _ (.data mode) => if mode.indexed then mode.weight - 1 else mode.weight
  | i => i.weight

/-- The instruction set states the least time of every instruction. -/
theorem cycles_eq_leastTime : ∀ e ∈ instructionSet, e.cycles = e.instruction.leastTime := by
  decide +kernel

/-! ## What is added -/

theorem DataMode.one_le_weight (mode : DataMode) : 1 ≤ mode.weight := by
  cases mode <;> decide

theorem Word.samePage_eq_decide (a b : Word) :
    a.samePage b = decide (a.toNat / 256 = b.toNat / 256) := by
  rw [Bool.eq_iff_iff, samePage, beq_iff_eq, decide_eq_true_iff, ← BitVec.toNat_inj, toNat_high,
    toNat_high]

namespace Machine

variable (m : Machine) (order : ByteOrder)

/-- An index that can lead to another page does so exactly if it does not stay in the page. -/
theorem crossed_eq_not_staysInPage {mode : DataMode} (h : mode.indexed = true) :
    (Location.mk (m.base order mode) (m.cell order mode)).crossed = !m.staysInPage order mode := by
  have hcrossed := mode.crossed_iff_carries order m.memory m.pastOpcode.registers
  rw [Bool.eq_iff_iff, Bool.not_eq_true']
  refine hcrossed.trans ?_
  cases mode with
  | absoluteX | absoluteY | indirectY =>
    rw [staysInPage, decide_eq_false_iff_not, Nat.not_lt]
    rfl
  | zeroPage | zeroPageX | zeroPageY | absolute | indirectX => cases h

/-- Reading through an index takes one cycle more exactly if the index leaves the page. -/
theorem leastTime_add_crossing (op : ReadOp) (mode : DataMode) :
    (Instruction.read op (.data mode)).leastTime + m.extraCycles order (.read op (.data mode)) =
      m.time order (.read op (.data mode)) := by
  have hweight := mode.one_le_weight
  simp only [extraCycles, Instruction.leastTime, time]
  by_cases hi : mode.indexed = true
  · rw [m.crossed_eq_not_staysInPage order hi, if_pos hi]
    cases m.staysInPage order mode with
    | true => rfl
    | false => exact Nat.sub_add_cancel hweight
  · have hi : mode.indexed = false := Bool.eq_false_iff.mpr hi
    have hstays : m.staysInPage order mode = false := by
      cases mode with
      | zeroPage | zeroPageX | zeroPageY | absolute | indirectX => rfl
      | absoluteX | absoluteY | indirectY => cases hi
    rw [crossed_of_not_indexed hi, hstays, hi]
    rfl

/-- A branch takes one cycle more if it is taken, and another if it leaves the page. -/
theorem leastTime_add_branchExtra (op : BranchOp) :
    (Instruction.branch op).leastTime + m.extraCycles order (.branch op) =
      m.time order (.branch op) := by
  have hextra : m.extraCycles order (.branch op) =
      branchCycles (op.taken m.registers.status) (m.registers.pc + 2) m.branchTarget := by
    rw [branchTarget_eq]
    rfl
  have hleast : (Instruction.branch op).leastTime = 2 := rfl
  rw [hextra, hleast, time, op.taken_eq_condition]
  cases op.condition m.registers.status with
  | false => rfl
  | true =>
    rw [if_pos rfl]
    by_cases hpage : (m.registers.pc + 2).toNat / 256 = m.branchTarget.toNat / 256
    · have hsame : (m.registers.pc + 2).samePage m.branchTarget = true := by
        rw [Word.samePage_eq_decide, decide_eq_true hpage]
      rw [if_pos hpage]
      simp only [branchCycles, hsame]
    · have hother : (m.registers.pc + 2).samePage m.branchTarget = false := by
        rw [Word.samePage_eq_decide, decide_eq_false hpage]
      rw [if_neg hpage]
      simp only [branchCycles, hother]

/-- What the instruction set states and what is added come to the law. -/
theorem leastTime_add_extraCycles (i : Instruction) :
    i.leastTime + m.extraCycles order i = m.time order i := by
  cases i with
  | read op source =>
    cases source with
    | immediate => rfl
    | data mode => exact m.leastTime_add_crossing order op mode
  | modify op target => cases target <;> rfl
  | stack op => cases op <;> rfl
  | branch op => exact m.leastTime_add_branchExtra order op
  | jmp mode => cases mode <;> rfl
  | write op mode | register op | jsr | rts | rti | brk => rfl

theorem result_step_of_next? (config : Config) {e : Encoding} (hn : m.next? = some e) :
    (step config m).result =
      .ok (e.instruction.leastTime + m.extraCycles config.order e.instruction) := by
  rw [step_of_next? hn config, executed, cycles_eq_leastTime e (mem_of_decode hn)]

/-- The cycles that a step returns at a documented opcode. -/
theorem result_step_eq_time (config : Config) {e : Encoding} (hn : m.next? = some e) :
    (step config m).result = .ok (m.time config.order e.instruction) := by
  rw [m.result_step_of_next? config hn, leastTime_add_extraCycles]

/-- An index that leads from the last page to the first crosses a page. -/
theorem result_step_of_wrapped_index :
    let m : Machine := ⟨{ Registers.powerOn with x := 0x90, pc := 0x0200 },
      Memory.blank.load 0x0200 [0xBD, 0x80, 0xFF]⟩
    m.cell .lowFirst .absoluteX = 0x0010 ∧ (step .hardware m).result = .ok 5 := by
  intro m
  have hn : m.next? = some ⟨0xBD, .read .lda (.data .absoluteX), 4⟩ := by decide +kernel
  have htime : m.time .lowFirst (.read .lda (.data .absoluteX)) = 5 := by decide +kernel
  refine ⟨by decide +kernel, ?_⟩
  rw [m.result_step_eq_time .hardware hn]
  exact congrArg Except.ok htime

end Machine

end M6502
