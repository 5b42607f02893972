import M6502.Proofs.Ownership

/-!
# Registers that look alike

Some of what a processor holds decides what it does, and some is only kept. A *view* says how much
of it is looked at. Two processors that agree in a view go on to agree in it, as long as the view
shows the four flags that instructions consult: whatever an operation does to one of them, it does
to the other.

## Main definitions

* `Flag.consulted` — the flags that decide what an instruction does.
* `View`, `View.Agree` — what is looked at, and that two processors agree in it.
* `View.architecture`, `View.withoutInert`, `View.full` — the documented registers and flags,
  everything but the two flags that nothing consults, and everything.
* `Registers.clearInert` — registers without those two flags.

## Main statements

* `View.Agree.applyRead`, `View.Agree.applyRegister` — operations keep an agreement.
* `View.agree_full_iff`, `View.agree_withoutInert_iff` — two of the views as equations.
-/

namespace M6502

namespace Flag

/-- The flags that decide what an instruction does. All four are branched on, and the carry is added
and rotated. -/
def consulted : List Flag := [carry, zero, overflow, negative]

end Flag

/-- What is looked at in the registers. The program counter and the registers that instructions
compute with always are, and so is the cell that the stack pointer selects. -/
structure View where
  flags : List Flag
  /-- Looks at what is kept and never used: the page of the stack pointer, the bits of the status
  that are no flags, and the latches. -/
  storage : Bool

namespace View

/-- The documented registers, with all six flags. -/
def architecture : View := ⟨Flag.all, false⟩

/-- Everything but the decimal and the interrupt flag. -/
def withoutInert : View := ⟨Flag.consulted, true⟩

def full : View := ⟨Flag.all, true⟩

/-- Two processors hold the same, as far as one looks. -/
structure Agree (v : View) (r s : Registers) : Prop where
  a : r.a = s.a
  x : r.x = s.x
  y : r.y = s.y
  pc : r.pc = s.pc
  offset : r.sp.low = s.sp.low
  flag : ∀ f ∈ v.flags, r.status.has f = s.status.has f
  page : v.storage = true → r.sp.high = s.sp.high
  extraBits : v.storage = true → r.status.extraBits = s.status.extraBits
  irq : v.storage = true → r.irqPending = s.irqPending
  nmi : v.storage = true → r.nmiPending = s.nmiPending

end View

/-- A bit of a pushed status shows the flag that has this bit, if one has it. -/
theorem Status.getLsbD_pushedByte_congr {s t : Status} {i : Nat}
    (h : ∀ f : Flag, f.bit = i → s.has f = t.has f) :
    s.pushedByte.getLsbD i = t.pushedByte.getLsbD i := by
  have hflags : s.flagsOnly.bits.getLsbD i = t.flagsOnly.bits.getLsbD i := by
    rw [flagsOnly, flagsOnly, BitVec.getLsbD_and, BitVec.getLsbD_and]
    cases hi : flagBits.getLsbD i with
    | false => rw [Bool.and_false, Bool.and_false]
    | true =>
      obtain ⟨f, rfl⟩ := Flag.exists_bit_eq hi
      rw [← has_eq_getLsbD, ← has_eq_getLsbD, h f rfl]
  simp only [pushedByte, BitVec.getLsbD_or, hflags]

namespace View.Agree

variable {v : View} {r s : Registers}

/-! ## Registers that are set -/

theorem goto (h : v.Agree r s) (a : Word) : v.Agree { r with pc := a } { s with pc := a } :=
  { h with pc := rfl }

theorem advance (h : v.Agree r s) (n : Word) : v.Agree (r.advance n) (s.advance n) :=
  { h with pc := congrArg (· + n) h.pc }

theorem setA (h : v.Agree r s) (b : Byte) : v.Agree { r with a := b } { s with a := b } :=
  { h with a := rfl }

theorem setX (h : v.Agree r s) (b : Byte) : v.Agree { r with x := b } { s with x := b } :=
  { h with x := rfl }

theorem setY (h : v.Agree r s) (b : Byte) : v.Agree { r with y := b } { s with y := b } :=
  { h with y := rfl }

theorem setStackOffset (h : v.Agree r s) (offset : Byte) :
    v.Agree (r.setStackOffset offset) (s.setStackOffset offset) :=
  { h with
    offset := rfl
    page := fun _ => rfl }

/-- The registers after a push do not show what was pushed. -/
theorem push {m n : Machine} (h : v.Agree m.registers n.registers) (b c : Byte) :
    v.Agree (m.push b).registers (n.push c).registers := by
  change v.Agree (m.registers.setStackOffset (m.registers.sp.low - 1))
    (n.registers.setStackOffset (n.registers.sp.low - 1))
  rw [← h.offset]
  exact h.setStackOffset _

theorem apply (h : v.Agree r s) (e : Effect) : v.Agree (r.apply e) (s.apply e) :=
  { h with
    flag := fun f hf => by
      change (r.status.apply e).has f = (s.status.apply e).has f
      rw [Status.has_apply, Status.has_apply, h.flag f hf]
    extraBits := fun hs => by
      change (r.status.apply e).extraBits = (s.status.apply e).extraBits
      rw [Status.extraBits_apply, Status.extraBits_apply, h.extraBits hs] }

/-- Statuses that replace the old ones need to agree in their flags only. -/
theorem setStatus (h : v.Agree r s) {t u : Status} (hf : ∀ f ∈ v.flags, t.has f = u.has f) :
    v.Agree (r.setStatus t) (s.setStatus u) :=
  { h with
    flag := fun f hm => by
      change t.flagsOnly.has f = u.flagsOnly.has f
      rw [Status.has_flagsOnly, Status.has_flagsOnly, hf f hm]
    extraBits := fun _ => by
      change t.flagsOnly.extraBits = u.flagsOnly.extraBits
      rw [Status.extraBits_flagsOnly, Status.extraBits_flagsOnly] }

theorem storeFlag (h : v.Agree r s) (f : Flag) (on : Bool) :
    v.Agree (r.storeFlag f on) (s.storeFlag f on) := by
  refine h.setStatus fun g hg => ?_
  change (r.status.set f on).has g = (s.status.set f on).has g
  rw [Status.has_set, Status.has_set, h.flag g hg]

theorem loadA (h : v.Agree r s) (b : Byte) : v.Agree (r.loadA b) (s.loadA b) :=
  (h.setA b).apply _

theorem loadX (h : v.Agree r s) (b : Byte) : v.Agree (r.loadX b) (s.loadX b) :=
  (h.setX b).apply _

theorem loadY (h : v.Agree r s) (b : Byte) : v.Agree (r.loadY b) (s.loadY b) :=
  (h.setY b).apply _

theorem addWithCarry (h : v.Agree r s) (hv : Flag.consulted ⊆ v.flags) (b : Byte) :
    v.Agree (r.addWithCarry b) (s.addWithCarry b) := by
  have hcarry : r.status.carry = s.status.carry :=
    congrArg Bool.toNat (h.flag .carry (hv (by decide)))
  simp only [Registers.addWithCarry, h.a, hcarry]
  exact (h.setA _).apply _

/-! ## Operations -/

/-- An operation on a byte keeps an agreement. -/
theorem applyRead (h : v.Agree r s) (hv : Flag.consulted ⊆ v.flags) (op : ReadOp) (b : Byte) :
    v.Agree (op.apply b r) (op.apply b s) := by
  cases op with
  | lda => exact h.loadA b
  | ldx => exact h.loadX b
  | ldy => exact h.loadY b
  | adc | sbc => exact h.addWithCarry hv _
  | and | ora | eor =>
    simp only [ReadOp.apply, h.a]
    exact h.loadA _
  | bit | cmp | cpx | cpy =>
    simp only [ReadOp.apply, h.a, h.x, h.y]
    exact h.apply _

/-- An operation on registers keeps an agreement. -/
theorem applyRegister (h : v.Agree r s) (op : RegisterOp) :
    v.Agree (op.apply r) (op.apply s) := by
  cases op with
  | txa | tya =>
    simp only [RegisterOp.apply, h.x, h.y]
    exact h.loadA _
  | tax | tsx | inx | dex =>
    simp only [RegisterOp.apply, h.a, h.x, h.offset]
    exact h.loadX _
  | tay | iny | dey =>
    simp only [RegisterOp.apply, h.a, h.y]
    exact h.loadY _
  | txs =>
    simp only [RegisterOp.apply, h.x]
    exact h.setStackOffset _
  | clc | sec | cli | sei | clv | cld | sed => exact h.storeFlag _ _
  | nop => exact h

theorem value_eq (h : v.Agree r s) (op : WriteOp) : op.value r = op.value s := by
  cases op with
  | sta => exact h.a
  | stx => exact h.x
  | sty => exact h.y

theorem taken_eq (h : v.Agree r s) (hv : Flag.consulted ⊆ v.flags) (op : BranchOp) :
    op.taken r.status = op.taken s.status := by
  have hflag : op.flag ∈ Flag.consulted := by cases op <;> decide
  rw [BranchOp.taken, BranchOp.taken, h.flag _ (hv hflag)]

/-- A push of the status shows a flag in its bit. -/
theorem getLsbD_pushedByte_eq (h : v.Agree r s) {i : Nat}
    (hv : ∀ f : Flag, f.bit = i → f ∈ v.flags) :
    r.status.pushedByte.getLsbD i = s.status.pushedByte.getLsbD i :=
  Status.getLsbD_pushedByte_congr fun f hf => h.flag f (hv f hf)

/-- A push of the status shows every flag, also those that nothing else consults. -/
theorem pushedByte_eq (h : v.Agree r s) (hv : Flag.all ⊆ v.flags) :
    r.status.pushedByte = s.status.pushedByte :=
  BitVec.eq_of_getLsbD_eq fun _ _ => h.getLsbD_pushedByte_eq fun f _ => hv f.mem_all

theorem stackCell_eq (h : v.Agree r s) : r.stackCell = s.stackCell :=
  congrArg stackCellAt h.offset

theorem index_eq (h : v.Agree r s) (mode : DataMode) : mode.index r = mode.index s := by
  cases mode with
  | absoluteX => exact h.x
  | absoluteY | indirectY => exact h.y
  | zeroPage | zeroPageX | zeroPageY | absolute | indirectX => rfl

end View.Agree

/-! ## Views as equations -/

namespace Registers

/-- The registers with the two flags cleared that nothing consults. -/
def clearInert (r : Registers) : Registers :=
  { r with status := (r.status.set .decimal false).set .irqDisable false }

theorem has_clearInert (r : Registers) (f : Flag) :
    r.clearInert.status.has f = if f ∈ Flag.consulted then r.status.has f else false := by
  cases f <;> simp [clearInert, Flag.consulted, Status.has_set]

theorem extraBits_clearInert (r : Registers) :
    r.clearInert.status.extraBits = r.status.extraBits := by
  simp only [clearInert, Status.extraBits_set]

end Registers

namespace View

variable {r s : Registers}

/-- Processors that agree in everything are equal. -/
theorem agree_full_iff : full.Agree r s ↔ r = s := by
  constructor
  · intro h
    have hsp : r.sp = s.sp := Word.eq_iff_high_low.mpr ⟨h.page rfl, h.offset⟩
    have hstatus : r.status = s.status :=
      Status.ext_extraBits (fun f => h.flag f f.mem_all) (h.extraBits rfl)
    obtain ⟨ha, hx, hy, hpc, -, -, -, -, hirq, hnmi⟩ := h
    cases r
    cases s
    simp only [Registers.mk.injEq]
    exact ⟨ha, hx, hy, hsp, hpc, hstatus, hirq rfl, hnmi rfl⟩
  · rintro rfl
    exact ⟨rfl, rfl, rfl, rfl, rfl, fun _ _ => rfl, fun _ => rfl, fun _ => rfl, fun _ => rfl,
      fun _ => rfl⟩

/-- Processors agree in everything but the decimal and the interrupt flag exactly when they are
equal with these two flags cleared. -/
theorem agree_withoutInert_iff : withoutInert.Agree r s ↔ r.clearInert = s.clearInert := by
  rw [← agree_full_iff]
  constructor
  · intro h
    refine { h with flag := fun f _ => ?_, extraBits := fun hs => ?_ }
    · rw [Registers.has_clearInert, Registers.has_clearInert]
      split
      · next hf => exact h.flag f hf
      · rfl
    · rw [Registers.extraBits_clearInert, Registers.extraBits_clearInert, h.extraBits hs]
  · intro h
    refine { h with flag := fun f hf => ?_, extraBits := fun hs => ?_ }
    · have hmem : f ∈ Flag.consulted := hf
      have hflag := h.flag f f.mem_all
      rwa [Registers.has_clearInert, Registers.has_clearInert, if_pos hmem, if_pos hmem] at hflag
    · have hbits := h.extraBits hs
      rwa [Registers.extraBits_clearInert, Registers.extraBits_clearInert] at hbits

end View

end M6502
