import M6502.Proofs.Ownership

/-!
# Sessions

An embedding program gives a processor commands, one after the other. Two things hold after every
one of them, whatever commands went before and whether they failed. The status has no bits that are
no flags: every way to the status drops them, or keeps those that are there. And the stack pointer
lies in page one, but for one way out: a command may set it as a whole word.

The first is why the two ways of setting flags agree, of which one drops the bits that are no flags
and the other leaves them alone.

## Main definitions

* `Cpu.after` — the processor after some commands.
* `Instruction.movesSp`, `Machine.movesSp`, `Command.assignsSp` — who sets the stack pointer.
* `Cpu.lastAssignment?` — the command that set the stack pointer last.

## Main statements

* `Registers.storeFlags_eq` — the two ways of setting flags differ in the bits that are no flags.
* `Cpu.extraBits_after` — the status keeps to the flags.
* `Cpu.leavesSp_after` — where the stack pointer is, by the command that set it last.
* `Cpu.after_powerOn` — the same together.
-/

namespace M6502

/-! ## Setting flags -/

namespace Status

theorem extraBits_empty : empty.extraBits = 0 := by decide

/-- Dropping the bits that are no flags of a mask comes to dropping them afterwards. -/
theorem flagsOnly_setAll (s : Status) (mask : Byte) (on : Bool) :
    (s.setAll (mask &&& flagBits) on).flagsOnly = (s.setAll mask on).flagsOnly := by
  refine congrArg mk (BitVec.eq_of_getLsbD_eq fun i hi => ?_)
  rw [BitVec.getLsbD_and, BitVec.getLsbD_and, getLsbD_setAll _ _ _ hi, getLsbD_setAll _ _ _ hi,
    BitVec.getLsbD_and]
  cases flagBits.getLsbD i <;> simp

/-- Setting the flags of a mask leaves the bits that are no flags as they are. -/
theorem extraBits_setAll (s : Status) (mask : Byte) (on : Bool) :
    (s.setAll (mask &&& flagBits) on).extraBits = s.extraBits := by
  refine extraBits_congr fun i hi hfree => ?_
  have hmask : flagBits.getLsbD i = false := by
    refine Bool.eq_false_iff.mpr fun hflag => ?_
    obtain ⟨f, hf⟩ := Flag.exists_bit_eq hflag
    exact hfree f hf
  rw [getLsbD_setAll _ _ _ hi, BitVec.getLsbD_and, hmask, Bool.and_false]
  rfl

end Status

namespace Registers

variable (r : Registers) (mask : Byte) (on : Bool)

/-- The way that drops the bits that are no flags does what the other does, and then drops them. -/
theorem storeFlags_eq : r.storeFlags mask on =
    { r.setFlags mask on with status := (r.setFlags mask on).status.flagsOnly } := by
  rw [storeFlags, setStatus, ← Status.flagsOnly_setAll]
  rfl

/-- On a status without bits to drop, the two ways are one. -/
theorem setFlags_eq_storeFlags {r : Registers} (h : r.status.extraBits = 0) :
    r.setFlags mask on = r.storeFlags mask on := by
  have hkept : (r.setFlags mask on).status.extraBits = 0 :=
    (r.status.extraBits_setAll mask on).trans h
  rw [storeFlags_eq, Status.flagsOnly_eq_self hkept]

theorem high_sp_powerOn : powerOn.sp.high = 1 := by decide

/-- The stack pointer has been brought into page one, or it is where it was. -/
def SpMoved (moved : Bool) (r s : Registers) : Prop :=
  if moved then s.sp.high = 1 else s.sp = r.sp

theorem SpMoved.trans {p q : Bool} {r s t : Registers} (h : SpMoved p r s) (g : SpMoved q s t) :
    SpMoved (p || q) r t := by
  cases q with
  | true =>
    rw [Bool.or_true]
    exact g
  | false =>
    rw [Bool.or_false]
    unfold SpMoved at h ⊢
    rw [show t.sp = s.sp from g]
    exact h

end Registers

/-! ## Instructions, steps and runs -/

/-- The instructions that set the stack pointer. They are those that use the stack, and `TXS`. -/
def Instruction.movesSp : Instruction → Bool
  | stack _ | jsr | rts | rti => true
  | register op => op == .txs
  | read .. | write .. | modify .. | branch _ | jmp _ | brk => false

/-- An instruction owns the stack pointer only if it sets it. -/
theorem Instruction.sp_notMem_owned {i : Instruction} (h : i.movesSp = false) :
    .sp ∉ i.owned.registers := by
  cases i with
  | read op source => exact op.sp_notMem_owned
  | modify op target => cases target <;> simp [owned]
  | register op => exact op.sp_notMem_owned (congrArg Bool.not h)
  | stack op | jsr | rts | rti => cases h
  | write op mode | branch op | jmp mode | brk => simp [owned]

namespace Machine

open Registers

/-- A step sets the stack pointer. -/
def movesSp (m : Machine) : Bool := m.next?.any fun e => e.instruction.movesSp

/-- An instruction that sets the stack pointer sets it to a cell of page one. -/
theorem high_sp_execute (m : Machine) (order : ByteOrder) {i : Instruction}
    (h : i.movesSp = true) : (m.execute order i).registers.sp.high = 1 := by
  cases i with
  | stack op =>
    cases op with
    | pha | php | pla | plp => exact Word.high_ofBytes 1 _
  | register op =>
    cases op
    case txs => exact Word.high_ofBytes 1 _
    all_goals cases h
  | jsr | rts | rti => exact Word.high_ofBytes 1 _
  | read op source | write op mode | modify op target | branch op | jmp mode | brk => cases h

theorem spMoved_step (config : Config) (m : Machine) :
    SpMoved m.movesSp m.registers (step config m).machine.registers := by
  unfold movesSp
  cases hn : m.next? with
  | none =>
    obtain ⟨pc, hs⟩ := machine_step_of_undocumented hn config
    rw [hs]
    rfl
  | some e =>
    rw [machine_step_of_next? hn]
    cases hi : e.instruction.movesSp with
    | true =>
      rw [Option.any_some, hi]
      exact m.high_sp_execute config.order hi
    | false =>
      rw [Option.any_some, hi]
      exact (m.frame_execute config.order e.instruction).sp (Instruction.sp_notMem_owned hi)

/-- A run sets the stack pointer if one of its steps does. -/
theorem spMoved_run (config : Config) (n : Nat) (m : Machine) :
    SpMoved ((visited config n m).any movesSp) m.registers (run config n m).machine.registers :=
  run_induction config (P := fun m vs last => SpMoved (vs.any movesSp) m.registers last.registers)
    (fun _ => rfl) (fun m _ _ _ _ ih => (spMoved_step config m).trans ih) n m

/-- A run keeps a status without bits that are no flags. -/
theorem extraBits_run {m : Machine} (config : Config) (n : Nat)
    (h : m.registers.status.extraBits = 0) :
    (run config n m).machine.registers.status.extraBits = 0 := by
  refine rel_run (Q := fun _ => True)
    (R := fun m last => m.registers.status.extraBits = 0 → last.registers.status.extraBits = 0)
    (fun _ h => h) (fun f g h => g (f h)) (fun m _ h => ?_) n m (fun _ _ => trivial) h
  rw [extraBits_step, h, ite_self]

end Machine

/-! ## Commands -/

namespace Command

/-- A command that is given to `c` sets the stack pointer. -/
def assignsSp (c : Cpu) : Command → Bool
  | create _ | reset | setSp _ => true
  | execute _ => c.machine.movesSp
  | run count => (Machine.visited c.config count c.machine).any Machine.movesSp
  | setA _ | setX _ | setY _ | setPc _ | setStatus _ | setFlags .. | setIrq _ | setNmi _ | write ..
  | load .. => false

/-- Where the stack pointer can be, if it was at `before` and the given command set it last. -/
def LeavesSp (before after : Word) : Option Command → Prop
  | none => after = before
  | some (setSp v) => after = v
  | some _ => after.high = 1

variable (c : Cpu)

/-- Every command keeps a status without bits that are no flags. -/
theorem extraBits_perform {c : Cpu} (h : c.machine.registers.status.extraBits = 0)
    (command : Command) : (perform c command).cpu.machine.registers.status.extraBits = 0 := by
  cases command with
  | create config | reset => exact Status.extraBits_empty
  | setStatus s => exact s.extraBits_flagsOnly
  | setFlags mask on => exact (Status.extraBits_setAll _ mask on).trans h
  | execute hint => exact Machine.extraBits_run c.config 1 h
  | run count =>
    rw [machine_perform_run]
    exact Machine.extraBits_run c.config count h
  | setA v | setX v | setY v | setSp v | setPc v | setIrq p | setNmi p | write a v | load a bytes =>
    exact h

/-- A command that sets the stack pointer sets it to a cell of page one, unless it is given a
value. -/
theorem spMoved_perform {command : Command} (h : ∀ v, command ≠ setSp v) :
    Registers.SpMoved (command.assignsSp c) c.machine.registers
      (perform c command).cpu.machine.registers := by
  cases command with
  | setSp v => exact absurd rfl (h v)
  | create config | reset => exact Registers.high_sp_powerOn
  | execute hint => exact c.machine.spMoved_step c.config
  | run count =>
    rw [machine_perform_run]
    exact c.machine.spMoved_run c.config count
  | setA v | setX v | setY v | setPc v | setStatus s | setFlags mask on | setIrq p | setNmi p
  | write a v | load a bytes => rfl

theorem leavesSp_perform (command : Command) :
    LeavesSp c.machine.registers.sp (perform c command).cpu.machine.registers.sp
      (if command.assignsSp c then some command else none) := by
  by_cases hset : ∃ v, command = setSp v
  · obtain ⟨v, rfl⟩ := hset
    rfl
  · have hmoved := spMoved_perform c fun v hv => hset ⟨v, hv⟩
    cases ha : command.assignsSp c with
    | false =>
      rw [ha] at hmoved
      exact hmoved
    | true =>
      rw [ha] at hmoved
      cases command with
      | setSp v => exact absurd ⟨v, rfl⟩ hset
      | _ => exact hmoved

end Command

namespace Cpu

/-- The processor after some commands, one after the other. -/
def after (c : Cpu) (commands : List Command) : Cpu :=
  commands.foldl (fun c command => (Command.perform c command).cpu) c

/-- The command among those given to `c` that set the stack pointer last. -/
def lastAssignment? (c : Cpu) : List Command → Option Command
  | [] => none
  | command :: rest =>
    (lastAssignment? (Command.perform c command).cpu rest).or
      (if command.assignsSp c then some command else none)

/-- Commands keep a status without bits that are no flags. -/
theorem extraBits_after {c : Cpu} (h : c.machine.registers.status.extraBits = 0)
    (commands : List Command) : (c.after commands).machine.registers.status.extraBits = 0 := by
  induction commands generalizing c with
  | nil => exact h
  | cons command rest ih => exact ih (Command.extraBits_perform h command)

/-- The stack pointer after some commands is where the last of them left it that set it. -/
theorem leavesSp_after (c : Cpu) (commands : List Command) :
    Command.LeavesSp c.machine.registers.sp (c.after commands).machine.registers.sp
      (c.lastAssignment? commands) := by
  induction commands generalizing c with
  | nil => rfl
  | cons command rest ih =>
    have hrest := ih (Command.perform c command).cpu
    have hfirst := Command.leavesSp_perform c command
    change Command.LeavesSp _ ((Command.perform c command).cpu.after rest).machine.registers.sp _
    rw [lastAssignment?]
    cases hlast : (Command.perform c command).cpu.lastAssignment? rest with
    | none =>
      -- the rest leaves the pointer where the first command left it
      rw [hlast] at hrest
      rw [Option.none_or, show _ = _ from hrest]
      exact hfirst
    | some last =>
      -- where it was before the rest does not matter
      rw [hlast] at hrest
      rw [Option.some_or]
      cases last <;> exact hrest

/-- What holds of a processor that was built and given any commands, with steps and runs that failed
among them. Every way to build one leads to the same machine, and a copy of a processor is that
processor. Of its status only flags are set. Its stack pointer lies in page one, unless the last
command that set it gave it a value elsewhere; every other command that sets it brings it back: a
reset, an instruction that uses the stack, and `TXS`.

There the two ways of setting flags agree for every mask. On other registers the one drops the bits
that are no flags, and nothing else, from what the other makes. -/
theorem after_powerOn (config : Config) (commands : List Command) :
    let start : Cpu := ⟨.powerOn, config⟩
    let c := start.after commands
    let r := c.machine.registers
    r.status.extraBits = 0 ∧
    (r.sp.high ≠ 1 ↔
      ∃ v, start.lastAssignment? commands = some (.setSp v) ∧ v.high ≠ 1 ∧ r.sp = v) ∧
    (∀ command, (∀ v, command ≠ .setSp v) →
      let sp := (Command.perform c command).cpu.machine.registers.sp
      if command.assignsSp c then sp.high = 1 else sp = r.sp) ∧
    (∀ mask on, r.setFlags mask on = r.storeFlags mask on) ∧
    ∀ (s : Registers) mask on, s.storeFlags mask on =
      { s.setFlags mask on with status := (s.setFlags mask on).status.flagsOnly } := by
  intro start c r
  have hstatus : r.status.extraBits = 0 :=
    extraBits_after (c := start) Status.extraBits_empty commands
  refine ⟨hstatus, ?sp, fun command h => Command.spMoved_perform c h,
    fun mask on => Registers.setFlags_eq_storeFlags mask on hstatus, Registers.storeFlags_eq⟩
  case sp =>
    have hleft : Command.LeavesSp start.machine.registers.sp r.sp
      (start.lastAssignment? commands) := start.leavesSp_after commands
    constructor
    · intro hout
      cases hlast : start.lastAssignment? commands with
      | none =>
        rw [hlast] at hleft
        exact absurd ((congrArg Word.high hleft).trans Registers.high_sp_powerOn) hout
      | some last =>
        rw [hlast] at hleft
        cases last with
        | setSp v => exact ⟨v, rfl, hleft ▸ hout, hleft⟩
        | _ => exact absurd hleft hout
    · rintro ⟨v, -, hv, hsp⟩
      rw [hsp]
      exact hv

/-- A stack pointer outside of page one, and a push that brings it back. -/
theorem after_powerOn_of_push :
    let commands : List Command := [.setStatus ⟨0xFF⟩, .setFlags 0x31 false, .setSp 0x0342,
      .write 0x0200 0x48, .setPc 0x0200]
    let c := (⟨.powerOn, .standard⟩ : Cpu).after commands
    c.machine.registers.status.extraBits = 0 ∧ c.machine.registers.sp.high ≠ 1 ∧
      (Command.perform c (.execute 0)).cpu.machine.registers.sp.high = 1 := by
  intro commands c
  obtain ⟨hstatus, hsp, hback, -⟩ := after_powerOn .standard commands
  have hlast : (⟨.powerOn, .standard⟩ : Cpu).lastAssignment? commands = some (.setSp 0x0342) := by
    decide +kernel
  have hpush : (Command.execute 0).assignsSp c = true := by decide +kernel
  have hmoved := hback (.execute 0) (fun v h => by cases h)
  refine ⟨hstatus, hsp.mpr ⟨0x0342, hlast, by decide, by decide +kernel⟩, ?_⟩
  rw [if_pos hpush] at hmoved
  exact hmoved

end Cpu

end M6502
