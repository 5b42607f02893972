import M6502.Proofs.Flow
import M6502.Proofs.Writes

/-!
# Returns from interrupts

An interrupt leaves a frame of three bytes on the stack: the address at which the program is to go
on, and above it the status as a push leaves it. A return from an interrupt takes the frame off
again, wherever it lies in page one, also where it wraps from the last cell to the first. It does
what pulling the status and returning from a subroutine do one after the other, but that a
subroutine returns behind the address on the stack and an interrupt to the address itself.

## Main definitions

* `Machine.HoldsFrame` — the frame of an interrupt is what the next three pulls take.

## Main statements

* `Machine.holdsFrame_push_pushWord` — what an interrupt pushes is its frame.
* `Machine.resume_of_holdsFrame` — what a return from an interrupt makes of the frame.
* `Machine.leave_plp` — pulling the status and leaving is resuming, one address further on.
* `Machine.return_from_interrupt` — the same of steps.
-/

namespace M6502

namespace Machine

/-- The frame of an interrupt is on the top of the stack: the status in which it came, and the
address at which the program is to go on. -/
structure HoldsFrame (m : Machine) (s : Status) (target : Word) : Prop where
  status : m.pulled 1 = s.pushedByte
  low : m.pulled 2 = target.low
  high : m.pulled 3 = target.high

variable (m : Machine)

/-! ## Frames -/

/-- What an interrupt pushes is its frame, and the three pulls that take it off end at the cell at
which it began. -/
theorem holdsFrame_push_pushWord (s : Status) (target : Word) :
    let entered := (m.pushWord target).push s.pushedByte
    entered.HoldsFrame s target ∧ entered.registers.sp.low + 3 = m.registers.sp.low := by
  intro entered
  have hoffset : entered.registers.sp.low = m.registers.sp.low - 3 := by
    simp only [entered, push, pushWord, Registers.low_setStackOffset]
    bv_omega
  have hpulled (n : Byte) : entered.pulled n =
      if m.registers.sp.low - 2 = m.registers.sp.low - 3 + n then s.pushedByte
      else if m.registers.sp.low - 1 = m.registers.sp.low - 3 + n then target.low
      else if m.registers.sp.low = m.registers.sp.low - 3 + n then target.high
      else m.memory.read (stackCellAt (m.registers.sp.low - 3 + n)) := by
    have htop : m.registers.sp.low - 1 - 1 = m.registers.sp.low - 2 := by bv_omega
    rw [pulled, hoffset]
    simp only [entered, push, pushWord, Registers.stackCell, Registers.low_setStackOffset,
      Memory.read_write, stackCellAt_inj, htop]
  refine ⟨⟨?_, ?_, ?_⟩, ?_⟩
  · rw [hpulled, if_pos (by bv_omega)]
  · rw [hpulled, if_neg (by bv_omega), if_pos (by bv_omega)]
  · rw [hpulled, if_neg (by bv_omega), if_neg (by bv_omega), if_pos (by bv_omega)]
  · rw [hoffset]
    bv_omega

/-! ## Returns -/

/-- A return does not depend on the program counter. -/
theorem leave_past (i : Instruction) : (m.past i).leave = m.leave := by
  rw [leave_eq, leave_eq]
  rfl

theorem resume_past (i : Instruction) : (m.past i).resume = m.resume := by
  rw [resume_eq, resume_eq]
  rfl

variable {m}

/-- A return from an interrupt goes on at the address in the frame, with the flags in it, and moves
the stack pointer past it. -/
theorem resume_of_holdsFrame {s : Status} {target : Word} (h : m.HoldsFrame s target) :
    m.resume = ⟨{ m.registers with
      sp := stackCellAt (m.registers.sp.low + 3), pc := target, status := s.flagsOnly },
      m.memory⟩ := by
  obtain ⟨hstatus, hlow, hhigh⟩ := h
  rw [resume_eq, hstatus, hlow, hhigh, Status.ofPulledByte_pushedByte, Word.ofBytes_high_low,
    Registers.setStatus, Status.flagsOnly_flagsOnly]
  rfl

/-- A return from an interrupt sees of the memory only the three bytes that it pulls. -/
theorem registers_resume_congr {n : Machine} (hr : n.registers = m.registers)
    (hp : ∀ k ∈ [1, 2, 3], n.pulled k = m.pulled k) :
    n.resume.registers = m.resume.registers := by
  have h1 : n.pulled 1 = m.pulled 1 := hp 1 (by decide)
  have h2 : n.pulled 2 = m.pulled 2 := hp 2 (by decide)
  have h3 : n.pulled 3 = m.pulled 3 := hp 3 (by decide)
  rw [resume_eq, resume_eq, hr, h1, h2, h3]

theorem low_sp_plp (m : Machine) :
    (StackOp.plp.apply m).registers.sp.low = m.registers.sp.low + 1 := by
  rw [registers_plp]
  exact Word.low_ofBytes _ _

/-- Behind a pull, the next pull takes the byte after it. -/
theorem pulled_plp (m : Machine) (n : Byte) :
    (StackOp.plp.apply m).pulled n = m.pulled (1 + n) := by
  rw [pulled, low_sp_plp, BitVec.add_assoc]
  rfl

/-- Pulling the status and returning from a subroutine is returning from an interrupt, but that it
goes on one address further. -/
theorem leave_plp (m : Machine) :
    (StackOp.plp.apply m).leave = m.resume.goto (m.resume.registers.pc + 1) := by
  have hoffset : (StackOp.plp.apply m).registers.sp.low + 2 = m.registers.sp.low + 3 := by
    rw [low_sp_plp, BitVec.add_assoc]
    rfl
  have hlow : (StackOp.plp.apply m).pulled 1 = m.pulled 2 := pulled_plp m 1
  have hhigh : (StackOp.plp.apply m).pulled 2 = m.pulled 3 := pulled_plp m 2
  rw [leave_eq, resume_eq, hoffset, hlow, hhigh, registers_plp]
  rfl

/-! ## Steps -/

theorem machine_step_of_rti (config : Config) {e : Encoding} (hn : m.next? = some e)
    (hrti : e.instruction = .rti) : (step config m).machine = m.resume := by
  rw [machine_step_of_next? hn, hrti]
  exact m.resume_past .rti

/-- Two steps, of which the first pulls the status and the second returns from a subroutine. -/
theorem run_of_plp_of_rts (config : Config) {plp rts : Encoding} (hn : m.next? = some plp)
    (hplp : plp.instruction = .stack .plp) (hnext : m.pastOpcode.next? = some rts)
    (hrts : rts.instruction = .rts) :
    (∃ cycles, (run config 2 m).result = .ok cycles) ∧
      (run config 2 m).machine = m.resume.goto (m.resume.registers.pc + 1) := by
  have hmid : (step config m).machine = StackOp.plp.apply (m.past (.stack .plp)) := by
    rw [machine_step_of_next? hn, hplp]
    rfl
  have hsecond : (step config m).machine.next? = some rts := by
    rw [hmid]
    exact hnext
  have hok : (step config m).result = .ok _ := congrArg Outcome.result (step_of_next? hn config)
  constructor
  · rw [result_run_succ_of_ok hok, result_run_succ_of_ok
      (congrArg Outcome.result (step_of_next? hsecond config))]
    exact ⟨_, rfl⟩
  · rw [machine_run_succ, machine_run_succ, run_zero]
    change (step config (step config m).machine).machine = _
    rw [machine_step_of_next? hsecond, hrts, hmid]
    change ((StackOp.plp.apply (m.past (.stack .plp))).past .rts).leave = _
    rw [leave_past, leave_plp, resume_past]

/-- A return from an interrupt undoes the interrupt: it goes on at the address in the frame, with
the flags in it and with the stack pointer past it, wherever the frame lies in page one, and changes
nothing else. It leaves what a pull of the status and a return from a subroutine leave that find the
same three bytes on the stack, but that these go on one address further. And what an interrupt
pushes is a frame, which takes up the three cells that a return from the interrupt frees. -/
theorem return_from_interrupt (config : Config) (m : Machine) {e : Encoding}
    (hn : m.next? = some e) (hrti : e.instruction = .rti) :
    let after := (step config m).machine
    (∃ cycles, (step config m).result = .ok cycles) ∧
    (∀ s target, m.HoldsFrame s target →
      after = ⟨{ m.registers with
        sp := stackCellAt (m.registers.sp.low + 3), pc := target, status := s.flagsOnly },
        m.memory⟩ ∧
      after.registers.sp.toNat = 0x0100 + (m.registers.sp.toNat + 3) % 256) ∧
    (∀ (config' : Config) (m' : Machine) (plp rts : Encoding), m'.registers = m.registers →
      m'.next? = some plp → plp.instruction = .stack .plp →
      m'.pastOpcode.next? = some rts → rts.instruction = .rts →
      (∀ k ∈ [1, 2, 3], m'.pulled k = m.pulled k) →
      let after' := (run config' 2 m').machine
      (∃ cycles, (run config' 2 m').result = .ok cycles) ∧
      after'.registers = { after.registers with pc := after.registers.pc + 1 } ∧
      after'.memory = m'.memory ∧ after.memory = m.memory) ∧
    ∀ (before : Machine) (s : Status) (target : Word),
      let entered := (before.pushWord target).push s.pushedByte
      entered.HoldsFrame s target ∧ entered.registers.sp.low + 3 = before.registers.sp.low := by
  intro after
  have hafter : after = m.resume := machine_step_of_rti config hn hrti
  refine ⟨⟨_, congrArg Outcome.result (step_of_next? hn config)⟩, ?frame, ?pair,
    fun before s target => before.holdsFrame_push_pushWord s target⟩
  case frame =>
    intro s target h
    have hdone := hafter.trans (resume_of_holdsFrame h)
    refine ⟨hdone, ?_⟩
    rw [hdone]
    change (stackCellAt (m.registers.sp.low + 3)).toNat = _
    rw [stackCellAt, Word.toNat_ofBytes, BitVec.toNat_add, Word.toNat_low]
    simp only [BitVec.reduceToNat, Nat.reduceMul, Nat.reducePow]
    omega
  case pair =>
    intro config' m' plp rts hregisters hplp hplp' hrts hrts' hpulled after'
    obtain ⟨hok, hpair⟩ := run_of_plp_of_rts config' hplp hplp' hrts hrts'
    have hsame := registers_resume_congr hregisters hpulled
    refine ⟨hok, ?_, ?_, ?_⟩
    · rw [hafter, ← hsame]
      exact congrArg Machine.registers hpair
    · have hmemory : after'.memory = _ := congrArg Machine.memory hpair
      rw [hmemory]
      exact memory_resume m'
    · rw [hafter]
      exact memory_resume m

/-- A frame that wraps from the last cell of page one to the first, with a stack pointer outside
that page and a status with every bit set. -/
theorem return_from_wrapped_interrupt :
    let registers := { Registers.powerOn with sp := 0x02FE, pc := 0x0200 }
    let memory := (Memory.blank.load 0x0100 [0xFF, 0x12]).write 0x01FF 0xFF
    let m : Machine := ⟨registers, memory.write 0x0200 0x40⟩
    let m' : Machine := ⟨registers, memory.load 0x0200 [0x28, 0x60]⟩
    let after := (step .standard m).machine
    after.registers.pc = 0x12FF ∧ after.registers.status = ⟨0xCF⟩ ∧
      after.registers.sp.toNat = 0x0101 ∧
      (run .hardware 2 m').machine.registers.pc = 0x1300 := by
  intro registers memory m m' after
  have hrti : m.next? = some ⟨0x40, .rti, 6⟩ := by decide
  have hplp : m'.next? = some ⟨0x28, .stack .plp, 4⟩ := by decide
  have hrts : m'.pastOpcode.next? = some ⟨0x60, .rts, 6⟩ := by decide
  have hframe : m.HoldsFrame ⟨0xFF⟩ 0x12FF :=
    ⟨by decide, by decide, by decide⟩
  have hsame : ∀ k ∈ [1, 2, 3], m'.pulled k = m.pulled k := by
    simp only [List.forall_mem_cons]
    exact ⟨by decide, by decide, by decide,
      fun _ h => absurd h List.not_mem_nil⟩
  obtain ⟨-, hreturns, hpair, -⟩ := return_from_interrupt .standard m hrti rfl
  obtain ⟨hafter, hsp⟩ := hreturns _ _ hframe
  obtain ⟨-, hregisters, -⟩ := hpair .hardware m' _ _ rfl hplp rfl hrts rfl hsame
  have hpc : after.registers.pc = 0x12FF := congrArg (·.registers.pc) hafter
  refine ⟨hpc, (congrArg (·.registers.status) hafter).trans (by decide), hsp.trans (by decide), ?_⟩
  rw [hregisters]
  change after.registers.pc + 1 = 0x1300
  rw [hpc]
  decide

end Machine

end M6502
