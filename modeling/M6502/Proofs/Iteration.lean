import Mathlib.Algebra.BigOperators.Group.Finset.Basic
import M6502.Proofs.Timing

/-!
# Runs as iterated steps

A run is its steps one after the other, and nothing else: it may be cut in two anywhere, the cycles
of its steps add up to its own, and a step that fails ends it and leaves the machine where the steps
before it led. From there every further step and every further run fails in the same way.

No step takes more than seven cycles, so the total of a run is known beforehand to fit a counter.

## Main definitions

* `Machine.after` — the machine after a number of steps.
* `Machine.cost` — the cycles of a step.

## Main statements

* `Machine.run_add_of_error`, `Machine.run_add_of_ok` — a run in two parts.
* `Machine.exists_of_run_error` — a run that fails is a run that succeeds, and a step that fails.
* `Machine.visited_eq_map_after`, `Machine.visited_of_ok`, `Machine.visited_of_error` — the steps of
  a run that succeed.
* `Machine.total_eq_sum`, `Machine.total_bounds` — the total of a run.
* `Cpu.run_eq_of_lt` — the total of a run that is not too long does not wrap.
* `Machine.run_iterates_step` — the same together.
-/

namespace M6502

namespace Outcome

variable {o : Outcome}

theorem result_eq_ok_iff {cycles : Nat} :
    o.result = .ok cycles ↔ o.result.toOption = some cycles := by
  cases o.result <;> simp [Except.toOption]

theorem exists_error_iff : (∃ fault, o.result = .error fault) ↔ o.result.toOption = none := by
  cases o.result <;> simp [Except.toOption]

end Outcome

namespace Machine

/-- The machine after `k` steps. A step that fails leaves it as it is. -/
def after (config : Config) (k : Nat) (m : Machine) : Machine :=
  (fun v => (step config v).machine)^[k] m

/-- The cycles that a step takes; none, if it fails. -/
def cost (config : Config) (m : Machine) : Nat := (step config m).result.toOption.getD 0

variable {config : Config} {m : Machine}

/-! ## The time of a step -/

theorem two_le_cycles : ∀ e ∈ instructionSet, 2 ≤ e.cycles := by
  decide +kernel

theorem weight_le_seven : ∀ e ∈ instructionSet, e.instruction.weight ≤ 7 := by
  decide +kernel

/-- Only a branch takes longer than an instruction whose index crosses a page, and it takes four
cycles at most. -/
theorem time_le (m : Machine) (order : ByteOrder) (i : Instruction) :
    m.time order i ≤ max i.weight 4 := by
  cases i with
  | read op source =>
    cases source with
    | immediate => exact Nat.le_max_left _ _
    | data mode =>
      simp only [time, Instruction.weight, Source.weight]
      split <;> omega
  | branch op =>
    simp only [time]
    split
    · split <;> omega
    · omega
  | write op mode | modify op target | register op | stack op | jmp mode | jsr | rts | rti | brk =>
    exact Nat.le_max_left _ _

/-- A step that succeeds takes two to seven cycles. -/
theorem cycles_bounds {cycles : Nat} (h : (step config m).result = .ok cycles) :
    2 ≤ cycles ∧ cycles ≤ 7 := by
  rcases step_cases config m with ⟨e, hn, -⟩ | ⟨-, -, hs⟩ | ⟨-, -, hs⟩
  · have hmem := mem_of_decode hn
    have hleast := m.leastTime_add_extraCycles config.order e.instruction
    have hlow := two_le_cycles e hmem
    have hhigh := weight_le_seven e hmem
    have htime := m.time_le config.order e.instruction
    rw [m.result_step_of_next? config hn, Except.ok.injEq] at h
    rw [cycles_eq_leastTime e hmem] at hlow
    omega
  · rw [hs] at h
    cases h
    decide
  · rw [hs] at h
    cases h

/-! ## Steps and runs -/

theorem after_succ (config : Config) (k : Nat) (m : Machine) :
    after config (k + 1) m = (step config (after config k m)).machine :=
  Function.iterate_succ_apply' _ _ _

/-- A run ends where its steps lead. -/
theorem machine_run_eq_after (config : Config) (n : Nat) (m : Machine) :
    (run config n m).machine = after config n m := by
  induction n with
  | zero => rfl
  | succ n ih => rw [machine_run_succ, after_succ, ih]

/-- No step is taken after a run that fails. -/
theorem run_add_of_error {j : Nat} {fault : Fault} (h : (run config j m).result = .error fault)
    (k : Nat) : run config (j + k) m = run config j m := by
  rw [run_add, Outcome.andThen_of_error h]

/-- A run goes on where a shorter one ended, and adds to its total. -/
theorem run_add_of_ok {j total : Nat} (h : (run config j m).result = .ok total) (k : Nat) :
    (run config (j + k) m).result =
        (run config k (run config j m).machine).result.map (total + ·) ∧
      (run config (j + k) m).machine = (run config k (run config j m).machine).machine := by
  rw [run_add]
  generalize run config j m = o at h ⊢
  obtain ⟨result, machine, log⟩ := o
  cases h
  exact ⟨rfl, rfl⟩

/-- A run that succeeds is one that is shorter by a step, and that step. -/
theorem exists_of_run_succ_ok {n total : Nat} (h : (run config (n + 1) m).result = .ok total) :
    ∃ before cycles, (run config n m).result = .ok before ∧
      (step config (after config n m)).result = .ok cycles ∧ total = before + cycles := by
  rw [result_run_succ, machine_run_eq_after] at h
  cases hr : (run config n m).result with
  | error fault =>
    rw [hr] at h
    cases h
  | ok before =>
    cases hs : (step config (after config n m)).result with
    | error fault =>
      rw [hr, hs] at h
      cases h
    | ok cycles =>
      rw [hr, hs] at h
      cases h
      exact ⟨before, cycles, rfl, rfl, rfl⟩

/-- A run that succeeds has succeeded all the way. -/
theorem exists_ok_of_le {k n total : Nat} (hk : k ≤ n) (h : (run config n m).result = .ok total) :
    ∃ before, (run config k m).result = .ok before := by
  induction n, hk using Nat.le_induction generalizing total with
  | base => exact ⟨total, h⟩
  | succ n _ ih =>
    obtain ⟨before, -, hbefore, -, -⟩ := exists_of_run_succ_ok h
    exact ih hbefore

/-- Every step of a run that succeeds has succeeded. -/
theorem exists_cycles_of_lt {k n total : Nat} (hk : k < n)
    (h : (run config n m).result = .ok total) :
    ∃ cycles, (step config (after config k m)).result = .ok cycles := by
  obtain ⟨before, hbefore⟩ := exists_ok_of_le (Nat.succ_le_of_lt hk) h
  obtain ⟨-, cycles, -, hcycles, -⟩ := exists_of_run_succ_ok hbefore
  exact ⟨cycles, hcycles⟩

theorem after_succ' (config : Config) (k : Nat) (m : Machine) :
    after config (k + 1) m = after config k (step config m).machine :=
  Function.iterate_succ_apply _ _ _

/-- A run visits the machines that its steps lead to, one after the other. -/
theorem visited_eq_map_after (config : Config) (n : Nat) (m : Machine) :
    visited config n m =
      (List.range (visited config n m).length).map fun k => after config k m := by
  refine run_induction config
    (P := fun m vs _ => vs = (List.range vs.length).map fun k => after config k m) ?stop ?go n m
  case stop => exact fun m => rfl
  case go =>
    intro m cycles rest last h ih
    rw [List.length_cons, List.range_succ_eq_map, List.map_cons, List.map_map]
    refine congrArg (m :: ·) (ih.trans ?_)
    exact List.map_congr_left fun k _ => (after_succ' config k m).symm

/-- A run that fails does so at the step behind those that succeed. -/
theorem visited_of_error {n : Nat} {fault : Fault} (h : (run config n m).result = .error fault) :
    (visited config n m).length < n ∧
      (step config (after config (visited config n m).length m)).result = .error fault := by
  induction n generalizing m with
  | zero => cases h
  | succ n ih =>
    cases hs : (step config m).result with
    | ok cycles =>
      rw [result_run_succ_of_ok hs] at h
      cases hr : (run config n (step config m).machine).result with
      | ok rest =>
        rw [hr] at h
        cases h
      | error late =>
        rw [hr] at h
        cases h
        obtain ⟨hlt, hfails⟩ := ih hr
        rw [visited_succ_of_ok hs, List.length_cons, after_succ']
        exact ⟨Nat.succ_lt_succ hlt, hfails⟩
    | error early =>
      rw [result_run_succ_of_error hs] at h
      rw [visited_succ_of_error hs]
      exact ⟨Nat.succ_pos n, hs.trans h⟩

/-! ## Totals -/

theorem cost_of_ok {cycles : Nat} (h : (step config m).result = .ok cycles) :
    cost config m = cycles := by
  rw [cost, h]
  rfl

/-- The total of a run is the sum of what its steps cost. -/
theorem total_eq_sum {n total : Nat} (h : (run config n m).result = .ok total) :
    total = ∑ k ∈ Finset.range n, cost config (after config k m) := by
  induction n generalizing total with
  | zero =>
    cases h
    rfl
  | succ n ih =>
    obtain ⟨before, cycles, hbefore, hcycles, rfl⟩ := exists_of_run_succ_ok h
    rw [Finset.sum_range_succ, ← ih hbefore, cost_of_ok hcycles]

/-- A run that succeeds takes all of its steps, and what they cost adds up to its total. -/
theorem visited_of_ok {n total : Nat} (h : (run config n m).result = .ok total) :
    (visited config n m).length = n ∧ ((visited config n m).map (cost config)).sum = total := by
  induction n generalizing m total with
  | zero =>
    cases h
    exact ⟨rfl, rfl⟩
  | succ n ih =>
    cases hs : (step config m).result with
    | ok cycles =>
      rw [result_run_succ_of_ok hs] at h
      cases hr : (run config n (step config m).machine).result with
      | ok rest =>
        rw [hr] at h
        cases h
        obtain ⟨hlength, hsum⟩ := ih hr
        rw [visited_succ_of_ok hs, List.length_cons, List.map_cons, List.sum_cons, hlength, hsum,
          cost_of_ok hs]
        exact ⟨rfl, rfl⟩
      | error fault =>
        rw [hr] at h
        cases h
    | error fault =>
      rw [result_run_succ_of_error hs] at h
      cases h

/-- A run takes at least two and at most seven cycles for every step. -/
theorem total_bounds {n total : Nat} (h : (run config n m).result = .ok total) :
    2 * n ≤ total ∧ total ≤ 7 * n := by
  induction n generalizing total with
  | zero =>
    cases h
    decide
  | succ n ih =>
    obtain ⟨before, cycles, hbefore, hcycles, rfl⟩ := exists_of_run_succ_ok h
    have hrest := ih hbefore
    have hstep := cycles_bounds hcycles
    omega

end Machine

/-- The total of a run that is not too long does not wrap. -/
theorem Cpu.run_eq_of_lt (c : Cpu) {n : Nat} (h : 7 * n < 2 ^ 64) :
    c.run n = c.machine.run c.config n := by
  rw [run_eq]
  rcases hr : c.machine.run c.config n with ⟨fault | total, m, log⟩
  · rfl
  · have hbound := (Machine.total_bounds (congrArg Outcome.result hr)).2
    have htotal : total % 2 ^ 64 = total := Nat.mod_eq_of_lt (by omega)
    simp only [Outcome.truncate, Except.map, BitVec.toNat_ofNat, htotal]

namespace Machine

variable {config : Config} {m : Machine}

/-! ## Runs that fail -/

/-- A run that fails takes some steps that succeed, and ends at a step that fails. -/
theorem exists_of_run_error {n : Nat} {fault : Fault}
    (h : (run config n m).result = .error fault) :
    ∃ k < n, (∃ total, (run config k m).result = .ok total) ∧
      (step config (after config k m)).result = .error fault ∧
      after config n m = after config k m := by
  induction n with
  | zero => cases h
  | succ n ih =>
    cases hr : (run config n m).result with
    | error earlier =>
      have hlast := result_step_of_run_error hr
      rw [result_run_succ, hr] at h
      cases h
      obtain ⟨k, hk, hok, hfails, hafter⟩ := ih hr
      refine ⟨k, by omega, hok, hfails, ?_⟩
      rw [machine_run_eq_after] at hlast
      rw [after_succ, machine_step_of_error hlast, hafter]
    | ok total =>
      rw [result_run_succ, hr, machine_run_eq_after] at h
      have hfails : (step config (after config n m)).result = .error fault := by
        cases hs : (step config (after config n m)).result with
        | ok cycles =>
          rw [hs] at h
          cases h
        | error late =>
          rw [hs] at h
          exact h
      exact ⟨n, by omega, ⟨total, hr⟩, hfails, by rw [after_succ, machine_step_of_error hfails]⟩

/-- Where a step fails, every run fails that takes one. -/
theorem run_of_step_error {fault : Fault} (h : (step config m).result = .error fault) {j : Nat}
    (hj : 1 ≤ j) : (run config j m).result = .error fault ∧ (run config j m).machine = m := by
  obtain ⟨i, rfl⟩ := Nat.exists_eq_add_of_le' hj
  exact ⟨result_run_succ_of_error h i, machine_run_succ_of_error h i⟩

/-- A fault names the opcode at the program counter. -/
theorem eq_illegalOpcode_of_error {fault : Fault} (h : (step config m).result = .error fault) :
    fault = .illegalOpcode m.opcode m.registers.pc := by
  obtain ⟨hn, hp⟩ := (result_step_eq_error_iff config m).mp ⟨fault, h⟩
  rw [step_of_fault hn hp] at h
  cases h
  rfl

/-- Of a run that fails, one number of steps only leads to its end by steps that all succeed. -/
theorem existsUnique_of_run_error {n : Nat} {fault : Fault}
    (h : (run config n m).result = .error fault) :
    ∃! k, k < n ∧ (∀ i < k, ∃ cycles, (step config (after config i m)).result = .ok cycles) ∧
      after config n m = after config k m := by
  obtain ⟨k, hk, ⟨total, hok⟩, hfails, hafter⟩ := exists_of_run_error h
  refine ⟨k, ⟨hk, fun i hi => exists_cycles_of_lt hi hok, hafter⟩, ?_⟩
  rintro j ⟨-, hsteps, hafter'⟩
  rw [hafter] at hafter'
  -- Of two different numbers the smaller one leads to a step that fails and is to succeed.
  rcases Nat.lt_trichotomy j k with hlt | heq | hgt
  · obtain ⟨cycles, hcycles⟩ := exists_cycles_of_lt hlt hok
    rw [← hafter', hfails] at hcycles
    cases hcycles
  · exact heq
  · obtain ⟨cycles, hcycles⟩ := hsteps k hgt
    rw [hfails] at hcycles
    cases hcycles

/-- A run is its steps one after the other. It ends where they lead, and may be cut in two: a run
that has failed goes no further, and one that has succeeded goes on from where it ended and adds to
its total.

A run that fails has taken a number of steps that succeed, which is the only one to lead to its end.
The fault names the opcode there, and every further step and run fails in the same way and changes
nothing. The total of a run that succeeds is the sum of what its steps cost, two to seven cycles
each, so that a counter of 64 bits does not overflow on the way: a run that is not too long is what
a processor answers, which counts in 64 bits. -/
theorem run_iterates_step (config : Config) (m : Machine) :
    (∀ n, 7 * n < 2 ^ 64 → Cpu.run ⟨m, config⟩ n = run config n m) ∧
    (∀ n, (run config n m).machine = after config n m) ∧
    (∀ j k fault, (run config j m).result = .error fault →
      run config (j + k) m = run config j m) ∧
    (∀ j k total, (run config j m).result = .ok total →
      let rest := run config k (run config j m).machine
      (run config (j + k) m).result = rest.result.map (total + ·) ∧
        (run config (j + k) m).machine = rest.machine) ∧
    (∀ n fault, (run config n m).result = .error fault →
      let last := (run config n m).machine
      (∃! k, k < n ∧ (∀ i < k, ∃ cycles, (step config (after config i m)).result = .ok cycles) ∧
        last = after config k m) ∧
      fault = .illegalOpcode last.opcode last.registers.pc ∧
      (step config last).result = .error fault ∧ (step config last).machine = last ∧
      ∀ j, 1 ≤ j → (run config j last).result = .error fault ∧ (run config j last).machine = last) ∧
    ∀ n total, (run config n m).result = .ok total →
      total = ∑ k ∈ Finset.range n, cost config (after config k m) ∧
      2 * n ≤ total ∧ total ≤ 7 * n ∧
      (7 * n < 2 ^ 64 → ∀ k ≤ n, ∃ before, (run config k m).result = .ok before ∧
        before < 2 ^ 64) := by
  refine ⟨fun n hn => Cpu.run_eq_of_lt ⟨m, config⟩ hn, fun n => machine_run_eq_after config n m,
    fun j k fault h => run_add_of_error h k, fun j k total h => run_add_of_ok h k,
    fun n fault h => ?failed, fun n total h => ?succeeded⟩
  case failed =>
    have hfails := result_step_of_run_error h
    refine ⟨?_, eq_illegalOpcode_of_error hfails, hfails, machine_step_of_error hfails,
      fun j hj => run_of_step_error hfails hj⟩
    rw [machine_run_eq_after]
    exact existsUnique_of_run_error h
  case succeeded =>
    obtain ⟨hlow, hhigh⟩ := total_bounds h
    refine ⟨total_eq_sum h, hlow, hhigh, fun hn k hk => ?_⟩
    obtain ⟨before, hbefore⟩ := exists_ok_of_le hk h
    have hbound := (total_bounds hbefore).2
    exact ⟨before, hbefore, by omega⟩

/-- Two instructions and an undocumented opcode behind them. -/
theorem run_iterates_step_until_fault :
    let m : Machine := ⟨{ Registers.powerOn with pc := 0x0200 },
      Memory.blank.load 0x0200 [0xEA, 0xA5, 0x10, 0x02]⟩
    let last := (run .standard 5 m).machine
    last = (run .standard 3 (run .standard 2 m).machine).machine ∧
      (run .standard 9 last).result = .error (.illegalOpcode 0x02 0x0203) ∧
      ∑ k ∈ Finset.range 2, cost .standard (after .standard k m) = 5 := by
  intro m last
  obtain ⟨-, -, -, hgo, hfailed, hsucceeded⟩ := run_iterates_step .standard m
  have htwo : (run .standard 2 m).result = .ok 5 :=
    Outcome.result_eq_ok_iff.mpr (by decide +kernel)
  obtain ⟨fault, hfive⟩ : ∃ fault, (run .standard 5 m).result = .error fault :=
    Outcome.exists_error_iff.mpr (by decide +kernel)
  have hlast : last.opcode = 0x02 ∧ last.registers.pc = 0x0203 := by decide +kernel
  obtain ⟨-, hfault, -, -, hagain⟩ := hfailed 5 fault hfive
  obtain ⟨hsum, -⟩ := hsucceeded 2 5 htwo
  refine ⟨(hgo 2 3 5 htwo).2, ?_, hsum.symm⟩
  rw [(hagain 9 (by decide)).1, hfault, hlast.1, hlast.2]

end Machine

end M6502
