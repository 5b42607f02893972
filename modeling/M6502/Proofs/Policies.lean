import M6502.Proofs.Iteration

/-!
# The two policies

A program that runs without a fault where undocumented opcodes are faults runs in the same way where
they are passed over. The two ways part at the first undocumented opcode, and not before: one
machine stops there, the other goes on past the byte as past a NOP. What carries this through a run
is that a step asks for the policy only when the byte before it is no documented opcode.

## Main definitions

* `Machine.withNop` — the machine with a NOP at the program counter.

## Main statements

* `Machine.step_skip_of_ok`, `Machine.step_skip_of_error` — a step under one policy, by what it is
  under the other.
* `Machine.run_skip_of_ok` — the same of a run that succeeds.
* `Machine.run_skip_extends_run_fault` — all runs, those that fail included.
-/

namespace M6502

/-- What comes of two ways to go on from an outcome depends on the machine it left alone. -/
theorem Outcome.andThen_congr {o : Outcome} {next next' : Machine → Outcome}
    (h : next o.machine = next' o.machine) : o.andThen next = o.andThen next' := by
  obtain ⟨_ | cycles, machine, log⟩ := o
  · rfl
  · change next machine = next' machine at h
    simp only [andThen, h]

namespace Machine

/-- The machine with a NOP in the place of the byte at the program counter. -/
def withNop (m : Machine) : Machine :=
  { m with memory := m.memory.write m.registers.pc 0xEA }

variable {order : ByteOrder} {m : Machine}

/-! ## Steps -/

/-- A NOP takes two cycles and moves the program counter on by one. -/
theorem step_withNop (config : Config) (m : Machine) :
    (step config m.withNop).result = .ok 2 ∧ (step config m.withNop).machine = m.withNop.goto
      (m.registers.pc + 1) := by
  have hopcode : m.withNop.opcode = 0xEA := Memory.read_write_self _ _ _
  have hnext : m.withNop.next? = some ⟨0xEA, .register .nop, 2⟩ := by
    rw [next?, hopcode]
    decide +kernel
  rw [step_of_next? hnext]
  exact ⟨rfl, rfl⟩

/-- Where undocumented opcodes are passed over, every step succeeds. -/
theorem exists_cycles_step_skip (order : ByteOrder) (m : Machine) :
    ∃ cycles, (step ⟨.skip, order⟩ m).result = .ok cycles := by
  cases h : (step ⟨.skip, order⟩ m).result with
  | ok cycles => exact ⟨cycles, rfl⟩
  | error fault =>
    obtain ⟨-, hpolicy⟩ := (result_step_eq_error_iff _ m).mp ⟨fault, h⟩
    cases hpolicy

/-- A step that succeeds where undocumented opcodes are faults is at a documented one, and the same
under the other policy. -/
theorem step_skip_of_ok {cycles : Nat} (h : (step ⟨.fault, order⟩ m).result = .ok cycles) :
    step ⟨.skip, order⟩ m = step ⟨.fault, order⟩ m := by
  cases hn : m.next? with
  | some e => rw [step_of_next? hn, step_of_next? hn]
  | none =>
    rw [step_of_fault hn rfl] at h
    cases h

/-- A step that fails under one policy moves the program counter on by one under the other. -/
theorem step_skip_of_error {fault : Fault} (h : (step ⟨.fault, order⟩ m).result = .error fault) :
    (step ⟨.skip, order⟩ m).result = .ok 2 ∧
      (step ⟨.skip, order⟩ m).machine = m.goto (m.registers.pc + 1) := by
  obtain ⟨hn, -⟩ := (result_step_eq_error_iff _ m).mp ⟨fault, h⟩
  rw [step_of_skip hn rfl]
  exact ⟨rfl, rfl⟩

/-! ## Runs -/

/-- Where undocumented opcodes are passed over, every run succeeds. -/
theorem exists_total_run_skip (order : ByteOrder) (n : Nat) (m : Machine) :
    ∃ total, (run ⟨.skip, order⟩ n m).result = .ok total := by
  cases h : (run ⟨.skip, order⟩ n m).result with
  | ok total => exact ⟨total, rfl⟩
  | error fault =>
    obtain ⟨cycles, hok⟩ := exists_cycles_step_skip order (run ⟨.skip, order⟩ n m).machine
    rw [result_step_of_run_error h] at hok
    cases hok

/-- A run that succeeds where undocumented opcodes are faults is the same under the other policy. -/
theorem run_skip_of_ok {n total : Nat} (h : (run ⟨.fault, order⟩ n m).result = .ok total) :
    run ⟨.skip, order⟩ n m = run ⟨.fault, order⟩ n m := by
  induction n generalizing total with
  | zero => rfl
  | succ n ih =>
    obtain ⟨before, cycles, hbefore, hcycles, -⟩ := exists_of_run_succ_ok h
    rw [run_succ_last, run_succ_last, ih hbefore]
    apply Outcome.andThen_congr
    rw [machine_run_eq_after]
    exact step_skip_of_ok hcycles

/-- Up to where a run succeeds under both policies, it leads to the same machines. -/
theorem after_skip_of_ok {i n total : Nat} (hi : i ≤ n)
    (h : (run ⟨.fault, order⟩ n m).result = .ok total) :
    after ⟨.skip, order⟩ i m = after ⟨.fault, order⟩ i m := by
  obtain ⟨before, hbefore⟩ := exists_ok_of_le hi h
  rw [← machine_run_eq_after, ← machine_run_eq_after, run_skip_of_ok hbefore]

/-- Passing over undocumented opcodes extends forbidding them. It never fails, and a run that
succeeds where they are forbidden is the same where they are passed over.

A run that fails where they are forbidden takes some steps first. The same steps are taken where
they are passed over: they lead to the same machines and take the same cycles. The next step then
takes two cycles, moves the program counter on by one and changes nothing else, as if there were a
NOP. -/
theorem run_skip_extends_run_fault (order : ByteOrder) (n : Nat) (m : Machine) :
    (∃ total, (run ⟨.skip, order⟩ n m).result = .ok total) ∧
    (∀ total, (run ⟨.fault, order⟩ n m).result = .ok total →
      run ⟨.skip, order⟩ n m = run ⟨.fault, order⟩ n m) ∧
    ∀ fault, (run ⟨.fault, order⟩ n m).result = .error fault →
      ∃ k < n,
        let last := after ⟨.fault, order⟩ k m
        (∀ i < k, ∃ cycles,
          (step ⟨.fault, order⟩ (after ⟨.fault, order⟩ i m)).result = .ok cycles) ∧
        (step ⟨.fault, order⟩ last).result = .error fault ∧
        (run ⟨.fault, order⟩ n m).machine = last ∧
        (∀ i ≤ k, after ⟨.skip, order⟩ i m = after ⟨.fault, order⟩ i m) ∧
        (∀ i < k, step ⟨.skip, order⟩ (after ⟨.skip, order⟩ i m) =
          step ⟨.fault, order⟩ (after ⟨.fault, order⟩ i m)) ∧
        (step ⟨.skip, order⟩ last).result = .ok 2 ∧
        (step ⟨.skip, order⟩ last).machine = last.goto (last.registers.pc + 1) ∧
        ∀ config, (step config last.withNop).result = (step ⟨.skip, order⟩ last).result ∧
          (step config last.withNop).machine.registers =
            (step ⟨.skip, order⟩ last).machine.registers := by
  refine ⟨exists_total_run_skip order n m, fun total h => run_skip_of_ok h, fun fault h => ?_⟩
  obtain ⟨k, hk, ⟨total, hok⟩, hfails, hafter⟩ := exists_of_run_error h
  obtain ⟨hcycles, hmoved⟩ := step_skip_of_error hfails
  refine ⟨k, hk, fun i hi => exists_cycles_of_lt hi hok, hfails, ?_,
    fun i hi => after_skip_of_ok hi hok, fun i hi => ?_, hcycles, hmoved, fun config => ?_⟩
  · rw [machine_run_eq_after, hafter]
  · obtain ⟨cycles, hstep⟩ := exists_cycles_of_lt hi hok
    rw [after_skip_of_ok (Nat.le_of_lt hi) hok]
    exact step_skip_of_ok hstep
  · obtain ⟨hnop, hnopMoved⟩ := step_withNop config (after ⟨.fault, order⟩ k m)
    rw [hnop, hcycles, hnopMoved, hmoved]
    exact ⟨rfl, rfl⟩

/-- An undocumented opcode at the last address, behind a NOP: passing over it wraps the program
counter. -/
theorem run_skip_past_last_address :
    let m : Machine := ⟨{ Registers.powerOn with pc := 0xFFFE },
      (Memory.blank.write 0xFFFE 0xEA).write 0xFFFF 0x02⟩
    let last := (run ⟨.fault, .lowFirst⟩ 5 m).machine
    run ⟨.skip, .lowFirst⟩ 1 m = run ⟨.fault, .lowFirst⟩ 1 m ∧
      (step ⟨.skip, .lowFirst⟩ last).machine = last.goto 0 := by
  intro m last
  obtain ⟨-, hone, -⟩ := run_skip_extends_run_fault .lowFirst 1 m
  obtain ⟨-, -, hfive⟩ := run_skip_extends_run_fault .lowFirst 5 m
  have hok : (run ⟨.fault, .lowFirst⟩ 1 m).result = .ok 2 :=
    Outcome.result_eq_ok_iff.mpr (by decide +kernel)
  obtain ⟨fault, hfault⟩ : ∃ fault, (run ⟨.fault, .lowFirst⟩ 5 m).result = .error fault :=
    Outcome.exists_error_iff.mpr (by decide +kernel)
  obtain ⟨k, -, -, -, hlast, -, -, -, hmoved, -⟩ := hfive fault hfault
  have hwrap : last.registers.pc + 1 = 0 := by decide +kernel
  refine ⟨hone 2 hok, ?_⟩
  rw [← hwrap]
  change last = _ at hlast
  rw [hlast]
  exact hmoved

end Machine

end M6502
