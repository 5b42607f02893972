import M6502.Proofs.Runs

/-!
# What an instruction owns

Every instruction owns some of the registers and some of the flags, and changes no other. What it
owns is the same whatever its operand is, but that a shift owns the accumulator when it works on it.
The program counter is no part of this: where it goes is a matter of its own.

The two bits of the status that are no flags belong to no instruction. Those that replace the whole
status, or one flag of it, drop them; all others leave them as they are.

## Main definitions

* `Ownership`, `Ownership.Frame` — registers and flags, and that no others differ.
* `Instruction.owned` — what an instruction owns.
* `Instruction.dropsExtraBits` — the instructions that drop the bits that are no flags.

## Main statements

* `Machine.frame_execute`, `Machine.extraBits_execute` — an instruction changes what it owns alone.
* `Machine.registers_step_and_run` — the same of a step, and of a run.
-/

namespace M6502

/-- The registers that instructions compute with, besides the program counter and the status. -/
inductive Register where
  | a
  | x
  | y
  | sp
deriving DecidableEq, Repr

/-- Some of the registers, and some of the flags. -/
structure Ownership where
  registers : List Register := []
  flags : List Flag := []
deriving DecidableEq, Repr

namespace Ownership

/-- Only what is owned differs, and the program counter and the status bits that are no flags may.
The latches, which nothing owns, are the same. -/
structure Frame (o : Ownership) (before after : Registers) : Prop where
  a : .a ∉ o.registers → after.a = before.a
  x : .x ∉ o.registers → after.x = before.x
  y : .y ∉ o.registers → after.y = before.y
  sp : .sp ∉ o.registers → after.sp = before.sp
  flag : ∀ f ∉ o.flags, after.status.has f = before.status.has f
  irq : after.irqPending = before.irqPending
  nmi : after.nmiPending = before.nmiPending

end Ownership

/-! ## What is owned -/

def ReadOp.owned : ReadOp → Ownership
  | lda | and | ora | eor => ⟨[.a], [.negative, .zero]⟩
  | ldx => ⟨[.x], [.negative, .zero]⟩
  | ldy => ⟨[.y], [.negative, .zero]⟩
  | adc | sbc => ⟨[.a], [.negative, .zero, .carry, .overflow]⟩
  | bit => ⟨[], [.negative, .zero, .overflow]⟩
  | cmp | cpx | cpy => ⟨[], [.negative, .zero, .carry]⟩

def ModifyOp.ownedFlags : ModifyOp → List Flag
  | asl | lsr | rol | ror => [.negative, .zero, .carry]
  | inc | dec => [.negative, .zero]

def RegisterOp.owned : RegisterOp → Ownership
  | txa | tya => ⟨[.a], [.negative, .zero]⟩
  | tax | tsx | inx | dex => ⟨[.x], [.negative, .zero]⟩
  | tay | iny | dey => ⟨[.y], [.negative, .zero]⟩
  | txs => ⟨[.sp], []⟩
  | clc | sec => ⟨[], [.carry]⟩
  | cli | sei => ⟨[], [.irqDisable]⟩
  | clv => ⟨[], [.overflow]⟩
  | cld | sed => ⟨[], [.decimal]⟩
  | nop => ⟨[], []⟩

def StackOp.owned : StackOp → Ownership
  | pha | php => ⟨[.sp], []⟩
  | pla => ⟨[.a, .sp], [.negative, .zero]⟩
  | plp => ⟨[.sp], Flag.all⟩

theorem ReadOp.sp_notMem_owned (op : ReadOp) : .sp ∉ op.owned.registers := by
  cases op <;> decide

theorem RegisterOp.sp_notMem_owned (op : RegisterOp) (h : (op != .txs) = true) :
    .sp ∉ op.owned.registers := by
  cases op
  case txs => cases h
  all_goals decide

namespace Instruction

/-- What an instruction owns. Of the changes in place, only a shift or a rotation can have the
accumulator for its target. -/
def owned : Instruction → Ownership
  | read op _ => op.owned
  | modify op .accumulator => ⟨[.a], op.ownedFlags⟩
  | modify op (.data _) => ⟨[], op.ownedFlags⟩
  | register op => op.owned
  | stack op => op.owned
  | jsr | rts => ⟨[.sp], []⟩
  | rti => ⟨[.sp], Flag.all⟩
  | write .. | branch _ | jmp _ | brk => ⟨[], []⟩

/-- The instructions that drop the bits of the status that are no flags. -/
def dropsExtraBits : Instruction → Bool
  | stack .plp | rti => true
  | register op =>
    match op with
    | .clc | .sec | .cli | .sei | .clv | .cld | .sed => true
    | .tax | .tay | .txa | .tya | .tsx | .txs | .inx | .iny | .dex | .dey | .nop => false
  | stack .pha | stack .php | stack .pla | read .. | write .. | modify .. | branch _ | jmp _ | jsr
  | rts | brk => false

end Instruction

namespace Machine

/-- What a step owns. At an undocumented opcode it owns nothing. -/
def owned (m : Machine) : Ownership :=
  match m.next? with
  | some e => e.instruction.owned
  | none => ⟨[], []⟩

/-- A step drops the bits of the status that are no flags. -/
def dropsExtraBits (m : Machine) : Bool := m.next?.any fun e => e.instruction.dropsExtraBits

end Machine

/-- The bits of the status that are no flags. -/
def Status.extraBits (s : Status) : Byte := s.bits &&& (breakBit ||| unusedBit)

/-- The flags that an effect decides. -/
def Effect.owned : Effect → List Flag
  | value _ => [.negative, .zero]
  | sum .. => [.negative, .zero, .carry, .overflow]
  | difference .. | shift .. => [.negative, .zero, .carry]
  | test .. => [.negative, .zero, .overflow]

/-! ## Frames -/

namespace Ownership.Frame

variable {o p : Ownership} {r s t : Registers}

theorem refl (o : Ownership) (r : Registers) : o.Frame r r where
  a _ := rfl
  x _ := rfl
  y _ := rfl
  sp _ := rfl
  flag _ _ := rfl
  irq := rfl
  nmi := rfl

theorem trans (h : o.Frame r s) (g : o.Frame s t) : o.Frame r t where
  a hn := (g.a hn).trans (h.a hn)
  x hn := (g.x hn).trans (h.x hn)
  y hn := (g.y hn).trans (h.y hn)
  sp hn := (g.sp hn).trans (h.sp hn)
  flag f hn := (g.flag f hn).trans (h.flag f hn)
  irq := g.irq.trans h.irq
  nmi := g.nmi.trans h.nmi

theorem mono (h : o.Frame r s) (hr : o.registers ⊆ p.registers) (hf : o.flags ⊆ p.flags) :
    p.Frame r s where
  a hn := h.a (hn <| hr ·)
  x hn := h.x (hn <| hr ·)
  y hn := h.y (hn <| hr ·)
  sp hn := h.sp (hn <| hr ·)
  flag f hn := h.flag f (hn <| hf ·)
  irq := h.irq
  nmi := h.nmi

theorem goto (a : Word) : o.Frame r { r with pc := a } := { refl o r with }

theorem setA (h : .a ∈ o.registers) (v : Byte) : o.Frame r { r with a := v } :=
  { refl o r with a := fun hn => absurd h hn }

theorem setX (h : .x ∈ o.registers) (v : Byte) : o.Frame r { r with x := v } :=
  { refl o r with x := fun hn => absurd h hn }

theorem setY (h : .y ∈ o.registers) (v : Byte) : o.Frame r { r with y := v } :=
  { refl o r with y := fun hn => absurd h hn }

theorem setStackOffset (h : .sp ∈ o.registers) (offset : Byte) :
    o.Frame r (r.setStackOffset offset) :=
  { refl o r with sp := fun hn => absurd h hn }

theorem pull (h : .sp ∈ o.registers) (mem : Memory) : o.Frame r (r.pull mem).2 :=
  setStackOffset h _

theorem pullWord (h : .sp ∈ o.registers) (mem : Memory) : o.Frame r (r.pullWord mem).2 :=
  (pull h mem).trans (pull h mem)

/-- A status that replaces the old one is owned as far as its flags are. -/
theorem setStatus {s : Status} (h : ∀ f ∉ o.flags, s.has f = r.status.has f) :
    o.Frame r (r.setStatus s) :=
  { refl o r with flag := fun f hn => (s.has_flagsOnly f).trans (h f hn) }

theorem storeFlag {f : Flag} (h : f ∈ o.flags) (on : Bool) : o.Frame r (r.storeFlag f on) := by
  refine setStatus fun g hn => ?_
  have hne : f ≠ g := fun he => hn (he ▸ h)
  change (r.status.set f on).has g = _
  rw [Status.has_set, if_neg hne]

end Ownership.Frame

/-- An effect decides exactly the flags that it owns. -/
theorem Effect.decides_eq_none_iff {e : Effect} {f : Flag} : e.decides f = none ↔ f ∉ e.owned := by
  cases e <;> cases f <;> simp [decides, carry, overflow, owned]

namespace Ownership.Frame

variable {o : Ownership} {r : Registers}

theorem apply {e : Effect} (h : e.owned ⊆ o.flags) : o.Frame r (r.apply e) :=
  { refl o r with
    flag := fun f hn => by
      change (r.status.apply e).has f = _
      rw [Status.has_apply, Effect.decides_eq_none_iff.mpr (hn <| h ·)]
      rfl }

theorem loadA (ha : .a ∈ o.registers) (hf : [.negative, .zero] ⊆ o.flags) (v : Byte) :
    o.Frame r (r.loadA v) :=
  (setA ha v).trans (apply hf)

theorem loadX (hx : .x ∈ o.registers) (hf : [.negative, .zero] ⊆ o.flags) (v : Byte) :
    o.Frame r (r.loadX v) :=
  (setX hx v).trans (apply hf)

theorem loadY (hy : .y ∈ o.registers) (hf : [.negative, .zero] ⊆ o.flags) (v : Byte) :
    o.Frame r (r.loadY v) :=
  (setY hy v).trans (apply hf)

end Ownership.Frame

/-! ## Each kind of operation -/

theorem ReadOp.frame_apply (op : ReadOp) (v : Byte) (r : Registers) :
    op.owned.Frame r (op.apply v r) := by
  cases op with
  | lda | and | ora | eor => exact .loadA (.head _) (List.Subset.refl _) _
  | ldx => exact .loadX (.head _) (List.Subset.refl _) _
  | ldy => exact .loadY (.head _) (List.Subset.refl _) _
  | adc | sbc => exact (Ownership.Frame.setA (.head _) _).trans (.apply (List.Subset.refl _))
  | bit | cmp | cpx | cpy => exact .apply (List.Subset.refl _)

theorem RegisterOp.frame_apply (op : RegisterOp) (r : Registers) :
    op.owned.Frame r (op.apply r) := by
  cases op with
  | txa | tya => exact .loadA (.head _) (List.Subset.refl _) _
  | tax | tsx | inx | dex => exact .loadX (.head _) (List.Subset.refl _) _
  | tay | iny | dey => exact .loadY (.head _) (List.Subset.refl _) _
  | txs => exact .setStackOffset (.head _) _
  | clc | sec | cli | sei | clv | cld | sed => exact .storeFlag (.head _) _
  | nop => exact .refl _ _

theorem StackOp.frame_apply (op : StackOp) (m : Machine) :
    op.owned.Frame m.registers (op.apply m).registers := by
  cases op with
  | pha | php => exact .setStackOffset (.head _) _
  | pla =>
    have hsp : Register.sp ∈ pla.owned.registers := by decide
    exact (Ownership.Frame.pull hsp m.memory).trans (.loadA (.head _) (List.Subset.refl _) _)
  | plp =>
    exact (Ownership.Frame.pull (.head _) m.memory).trans
      (.setStatus fun f hn => absurd f.mem_all hn)

theorem ModifyOp.owned_effect (op : ModifyOp) (old : Byte) (carry : Bool) :
    (op.effect old carry).owned = op.ownedFlags := by
  cases op <;> rfl

namespace Machine

variable (m : Machine) (order : ByteOrder)

theorem frame_modify (op : ModifyOp) (target : Target) (n : Machine) :
    (Instruction.modify op target).owned.Frame m.registers
      (m.modify op (target.place n order)).registers := by
  have heffect {o : Ownership} (ho : o.flags = op.ownedFlags) (old : Byte) (carry : Bool) :
      o.Frame m.registers (m.registers.apply (op.effect old carry)) := by
    refine .apply ?_
    rw [op.owned_effect, ho]
    exact List.Subset.refl _
  cases target with
  | accumulator => exact (heffect rfl _ _).trans (.setA (.head _) _)
  | data mode => exact heffect rfl _ _

theorem status_branch (op : BranchOp) (offset : Byte) :
    (m.branch op offset).registers.status = m.registers.status := by
  unfold branch
  split <;> rfl

theorem frame_branch (op : BranchOp) (offset : Byte) (o : Ownership) :
    o.Frame m.registers (m.branch op offset).registers := by
  unfold branch
  split
  · exact .goto _
  · exact .refl _ _

/-- An instruction changes only the registers and the flags that it owns. -/
theorem frame_execute (i : Instruction) :
    i.owned.Frame m.registers (m.execute order i).registers := by
  refine Ownership.Frame.trans (s := (m.past i).registers) (.goto _) ?_
  cases i with
  | read op source => exact op.frame_apply _ _
  | write op mode => exact .refl _ _
  | modify op target => exact frame_modify _ order op target m
  | register op => exact op.frame_apply _
  | stack op => exact op.frame_apply _
  | branch op => exact frame_branch _ op _ _
  | jmp mode => exact .goto _
  | jsr =>
    exact (Ownership.Frame.setStackOffset (.head _) _).trans
      ((Ownership.Frame.setStackOffset (.head _) _).trans (.goto _))
  | rts => exact (Ownership.Frame.pullWord (.head _) m.memory).trans (.goto _)
  | rti =>
    exact (Ownership.Frame.pull (.head _) m.memory).trans
      ((Ownership.Frame.setStatus fun f hn => absurd f.mem_all hn).trans
        ((Ownership.Frame.pullWord (.head _) m.memory).trans (.goto _)))
  | brk => exact .goto _

end Machine

/-! ## The bits that are no flags -/

theorem Flag.exists_bit_eq {i : Nat} (h : Status.flagBits.getLsbD i = true) :
    ∃ f : Flag, f.bit = i := by
  have hall : ∀ i : Fin 8, Status.flagBits.getLsbD i = true → ∃ f ∈ Flag.all, f.bit = i := by
    decide
  obtain ⟨f, -, hf⟩ := hall ⟨i, BitVec.lt_of_getLsbD h⟩ h
  exact ⟨f, hf⟩

namespace Status

theorem extraBits_congr {s t : Status}
    (h : ∀ i < 8, (∀ f : Flag, f.bit ≠ i) → s.bits.getLsbD i = t.bits.getLsbD i) :
    s.extraBits = t.extraBits := by
  refine BitVec.eq_of_getLsbD_eq fun i hi => ?_
  rw [extraBits, extraBits, BitVec.getLsbD_and, BitVec.getLsbD_and]
  by_cases hfree : ∀ f : Flag, f.bit ≠ i
  · rw [h i hi hfree]
  · have hmask : (breakBit ||| unusedBit).getLsbD i = false := by
      obtain ⟨f, hf⟩ := Classical.not_forall.mp hfree
      obtain rfl := Decidable.not_not.mp hf
      cases f <;> rfl
    rw [hmask, Bool.and_false, Bool.and_false]

/-- An effect leaves the bits that are no flags as they are. -/
theorem extraBits_apply (s : Status) (e : Effect) : (s.apply e).extraBits = s.extraBits :=
  extraBits_congr fun _ hi h => getLsbD_apply s e hi h

/-- Setting a flag leaves the bits that are no flags as they are. -/
theorem extraBits_set (s : Status) (f : Flag) (on : Bool) : (s.set f on).extraBits = s.extraBits :=
  extraBits_congr fun _ hi h => by rw [getLsbD_set _ _ _ hi, if_neg (h f)]

@[simp] theorem extraBits_flagsOnly (s : Status) : s.flagsOnly.extraBits = 0 := by
  rw [extraBits, flagsOnly, BitVec.and_assoc]
  exact BitVec.and_zero

theorem getLsbD_eq_of_extraBits {s t : Status} (h : s.extraBits = t.extraBits) {i : Nat}
    (hi : (breakBit ||| unusedBit).getLsbD i = true) : s.bits.getLsbD i = t.bits.getLsbD i := by
  have hbit := congrArg (BitVec.getLsbD · i) h
  simpa only [extraBits, BitVec.getLsbD_and, hi, Bool.and_true] using hbit

/-- Two statuses are equal when they agree in every flag and in the bits that are no flags. -/
theorem ext_extraBits {s t : Status} (hf : ∀ f, s.has f = t.has f)
    (hb : s.extraBits = t.extraBits) : s = t :=
  ext_has hf (getLsbD_eq_of_extraBits hb rfl) (getLsbD_eq_of_extraBits hb rfl)

/-- A status without extra bits has none to drop. -/
theorem flagsOnly_eq_self {s : Status} (h : s.extraBits = 0) : s.flagsOnly = s :=
  ext_extraBits s.has_flagsOnly (s.extraBits_flagsOnly.trans h.symm)

end Status

theorem ReadOp.extraBits_apply (op : ReadOp) (v : Byte) (r : Registers) :
    (op.apply v r).status.extraBits = r.status.extraBits := by
  cases op <;> exact Status.extraBits_apply _ _

namespace Machine

variable (m : Machine) (order : ByteOrder)

/-- The bits of the status that are no flags are dropped by the instructions that drop them, and
kept by all others. -/
theorem extraBits_execute (i : Instruction) :
    (m.execute order i).registers.status.extraBits =
      if i.dropsExtraBits then 0 else m.registers.status.extraBits := by
  cases i with
  | read op source => exact op.extraBits_apply _ _
  | modify op target =>
    cases target with
    | accumulator | data mode => exact Status.extraBits_apply _ _
  | register op =>
    cases op with
    | tax | tay | txa | tya | tsx | inx | iny | dex | dey => exact Status.extraBits_apply _ _
    | txs | nop => rfl
    | clc | sec | cli | sei | clv | cld | sed => exact Status.extraBits_flagsOnly _
  | stack op =>
    cases op with
    | pha | php => rfl
    | pla => exact Status.extraBits_apply _ _
    | plp => exact Status.extraBits_flagsOnly _
  | branch op => exact congrArg Status.extraBits (status_branch _ op _)
  | rti => exact Status.extraBits_flagsOnly _
  | write op mode | jmp mode | jsr | rts | brk => rfl

/-! ## Steps and runs -/

variable {m} {config : Config}

/-- A step changes only the registers and the flags that it owns. -/
theorem frame_step (config : Config) (m : Machine) :
    m.owned.Frame m.registers (step config m).machine.registers := by
  unfold owned
  cases hn : m.next? with
  | some e =>
    rw [machine_step_of_next? hn]
    exact m.frame_execute config.order e.instruction
  | none =>
    obtain ⟨pc, hs⟩ := machine_step_of_undocumented hn config
    rw [hs]
    exact .goto pc

/-- A step drops the bits of the status that are no flags, or keeps them. -/
theorem extraBits_step (config : Config) (m : Machine) :
    (step config m).machine.registers.status.extraBits =
      if m.dropsExtraBits then 0 else m.registers.status.extraBits := by
  unfold dropsExtraBits
  cases hn : m.next? with
  | some e =>
    rw [machine_step_of_next? hn]
    exact m.extraBits_execute config.order e.instruction
  | none =>
    obtain ⟨pc, hs⟩ := machine_step_of_undocumented hn config
    rw [hs]
    rfl

/-- A run changes only the registers and the flags that one of its steps owns. -/
theorem frame_run {o : Ownership} (n : Nat) (m : Machine)
    (h : ∀ v ∈ visited config n m, v.owned.registers ⊆ o.registers ∧ v.owned.flags ⊆ o.flags) :
    o.Frame m.registers (run config n m).machine.registers :=
  rel_run (R := fun m last => o.Frame m.registers last.registers) (fun m => .refl o m.registers)
    (fun h g => h.trans g) (fun m hm => (frame_step config m).mono hm.1 hm.2) n m h

/-- What a step and a run change among the registers. A step changes only the registers and the
flags that its operation owns; it drops the two bits of the status that are no flags, or leaves them
as they are. A run changes only what one of its steps owns. -/
theorem registers_step_and_run (config : Config) (m : Machine) :
    m.owned.Frame m.registers (step config m).machine.registers ∧
    (step config m).machine.registers.status.extraBits =
      (if m.dropsExtraBits then 0 else m.registers.status.extraBits) ∧
    ∀ n (o : Ownership), (∀ v ∈ visited config n m,
      v.owned.registers ⊆ o.registers ∧ v.owned.flags ⊆ o.flags) →
        o.Frame m.registers (run config n m).machine.registers :=
  ⟨frame_step config m, extraBits_step config m, fun n _ h => frame_run n m h⟩

/-- A comparison and the setting of a flag, from a status with all bits set but three: neither
touches the accumulator or the overflow flag, and the comparison keeps the bits that are no
flags. -/
theorem registers_run_of_comparison :
    let m : Machine := ⟨{ Registers.powerOn with a := 5, pc := 0x0200, status := ⟨0xF4⟩ },
      Memory.blank.load 0x0200 [0xC9, 0x05, 0x38]⟩
    (run .hardware 2 m).machine.registers.a = 5 ∧
      (run .hardware 2 m).machine.registers.status.has .overflow = true ∧
      (step .hardware m).machine.registers.status.extraBits = 0x30 := by
  intro m
  have hown : ∀ v ∈ visited .hardware 2 m,
      v.owned.registers ⊆ [] ∧ v.owned.flags ⊆ [.negative, .zero, .carry] := by
    decide +kernel
  have hkeep : m.dropsExtraBits = false := by decide +kernel
  obtain ⟨-, hextra, hrun⟩ := registers_step_and_run .hardware m
  have hframe := hrun 2 ⟨[], [.negative, .zero, .carry]⟩ hown
  refine ⟨hframe.a (by decide), (hframe.flag .overflow (by decide)).trans (by decide), ?_⟩
  rw [hextra, hkeep]
  decide

end Machine

end M6502
