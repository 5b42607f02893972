import M6502.Proofs.Faults

/-!
# Runs

A run is its steps one after the other, up to the first that fails. A step that fails changes
nothing, so where a run ends depends on the steps that succeed alone, and a statement about a run
follows from two: of a run without a step, and of a step before a run.

## Main definitions

* `Machine.visited` — the machines at which a run takes a step that succeeds.

## Main statements

* `Machine.machine_step_of_error` — a step that fails changes nothing.
* `Machine.machine_step_of_next?`, `Machine.machine_step_of_undocumented` — the machine after a
  step.
* `Machine.run_induction` — induction on the steps of a run.
* `Machine.rel_run` — what relates the two sides of every step relates the two ends of a run.
* `Machine.result_run_succ`, `Machine.machine_run_succ` — a longer run ends with a step from where a
  shorter one ended.
* `Machine.mem_visited_run`, `Machine.exists_of_mem_visited` — the machines that a run visits are
  where the shorter runs ended.
* `Machine.exists_ok_of_mem_visited` — from each of them a step succeeds.
-/

namespace M6502

namespace Machine

/-- The machines at which a run of up to `n` steps takes a step that succeeds, in order. -/
def visited (config : Config) : Nat → Machine → List Machine
  | 0, _ => []
  | n + 1, m =>
    match (step config m).result with
    | .ok _ => m :: visited config n (step config m).machine
    | .error _ => []

variable {config : Config} {m : Machine}

/-- A step that fails leaves the machine as it was. -/
theorem machine_step_of_error {fault : Fault} (h : (step config m).result = .error fault) :
    (step config m).machine = m := by
  obtain ⟨hn, hp⟩ := (result_step_eq_error_iff config m).mp ⟨fault, h⟩
  rw [step_of_fault hn hp]

/-- A step at a documented opcode leaves what its instruction leaves. -/
theorem machine_step_of_next? {e : Encoding} (h : m.next? = some e) (config : Config) :
    (step config m).machine = m.execute config.order e.instruction := by
  rw [step_of_next? h]
  rfl

/-- A step at an undocumented opcode changes nothing but the program counter, if that. -/
theorem machine_step_of_undocumented (h : m.next? = none) (config : Config) :
    ∃ a, (step config m).machine = m.goto a := by
  cases hp : config.policy with
  | skip => exact ⟨m.registers.pc + 1, congrArg Outcome.machine (step_of_skip h hp)⟩
  | fault => exact ⟨m.registers.pc, congrArg Outcome.machine (step_of_fault h hp)⟩

theorem visited_succ_of_ok {cycles : Nat} (h : (step config m).result = .ok cycles) (n : Nat) :
    visited config (n + 1) m = m :: visited config n (step config m).machine := by
  simp [visited, h]

theorem visited_succ_of_error {fault : Fault} (h : (step config m).result = .error fault)
    (n : Nat) : visited config (n + 1) m = [] := by
  simp [visited, h]

theorem machine_run_succ_of_ok {cycles : Nat} (h : (step config m).result = .ok cycles)
    (n : Nat) :
    (run config (n + 1) m).machine = (run config n (step config m).machine).machine := by
  rw [run_succ]
  generalize step config m = o at h ⊢
  obtain ⟨result, after, log⟩ := o
  cases h
  rfl

theorem machine_run_succ_of_error {fault : Fault} (h : (step config m).result = .error fault)
    (n : Nat) : (run config (n + 1) m).machine = m := by
  rw [run_succ, Outcome.andThen_of_error h, machine_step_of_error h]

/-- What holds of a run without a step, and of a step before a run of which it holds, holds of every
run. It may speak of where the run starts, of the machines it visits, and of where it ends. -/
theorem run_induction (config : Config) {P : Machine → List Machine → Machine → Prop}
    (stop : ∀ m, P m [] m)
    (go : ∀ m cycles rest last, (step config m).result = .ok cycles →
      P (step config m).machine rest last → P m (m :: rest) last) (n : Nat) (m : Machine) :
    P m (visited config n m) (run config n m).machine := by
  induction n generalizing m with
  | zero => exact stop m
  | succ n ih =>
    cases h : (step config m).result with
    | ok cycles =>
      rw [visited_succ_of_ok h, machine_run_succ_of_ok h]
      exact go m cycles _ _ h (ih _)
    | error fault =>
      rw [visited_succ_of_error h, machine_run_succ_of_error h]
      exact stop m

/-- A relation between machines that holds across every step at which `Q` holds, holds across every
run that visits only such steps. -/
theorem rel_run {Q : Machine → Prop} {R : Machine → Machine → Prop} (refl : ∀ m, R m m)
    (trans : ∀ {a b c}, R a b → R b c → R a c) (step : ∀ m, Q m → R m (step config m).machine)
    (n : Nat) (m : Machine) (h : ∀ v ∈ visited config n m, Q v) :
    R m (run config n m).machine := by
  revert h
  refine run_induction config (P := fun m vs last => (∀ v ∈ vs, Q v) → R m last) ?stop ?go n m
  case stop => exact fun m _ => refl m
  case go =>
    intro m cycles rest last _ ih hvs
    exact trans (step m (hvs m List.mem_cons_self))
      (ih fun v hv => hvs v (List.mem_cons_of_mem m hv))

/-! ## The last step -/

theorem result_run_succ_of_ok {cycles : Nat} (h : (step config m).result = .ok cycles) (n : Nat) :
    (run config (n + 1) m).result =
      (run config n (step config m).machine).result.map (cycles + ·) := by
  rw [run_succ]
  generalize step config m = o at h ⊢
  obtain ⟨result, after, log⟩ := o
  cases h
  rfl

theorem result_run_succ_of_error {fault : Fault} (h : (step config m).result = .error fault)
    (n : Nat) : (run config (n + 1) m).result = .error fault := by
  rw [run_succ, Outcome.andThen_of_error h, h]

/-- Where a run failed, a step fails again. -/
theorem result_step_of_run_error {n : Nat} {fault : Fault}
    (h : (run config n m).result = .error fault) :
    (step config (run config n m).machine).result = .error fault := by
  induction n generalizing m with
  | zero => cases h
  | succ n ih =>
    cases hs : (step config m).result with
    | ok cycles =>
      rw [result_run_succ_of_ok hs] at h
      rw [machine_run_succ_of_ok hs]
      cases hr : (run config n (step config m).machine).result with
      | ok total =>
        rw [hr] at h
        cases h
      | error g =>
        rw [hr] at h
        cases h
        exact ih hr
    | error g =>
      rw [result_run_succ_of_error hs] at h
      rw [machine_run_succ_of_error hs, hs, h]

theorem run_succ_last (config : Config) (n : Nat) (m : Machine) :
    run config (n + 1) m = (run config n m).andThen (step config) := by
  have hone : run config 1 = step config := by
    funext m
    rw [run_succ]
    exact Outcome.andThen_start _
  rw [run_add, hone]

/-- A longer run takes one more step from where a shorter one ended, unless that failed. -/
theorem result_run_succ (config : Config) (n : Nat) (m : Machine) :
    (run config (n + 1) m).result = (run config n m).result.bind fun cycles =>
      (step config (run config n m).machine).result.map (cycles + ·) := by
  rw [run_succ_last]
  generalize run config n m = o
  obtain ⟨_ | _, _, _⟩ := o <;> rfl

/-- A longer run ends where a step leads from the end of a shorter one; if that failed, the step
fails there again and changes nothing. -/
theorem machine_run_succ (config : Config) (n : Nat) (m : Machine) :
    (run config (n + 1) m).machine = (step config (run config n m).machine).machine := by
  rw [run_succ_last]
  cases h : (run config n m).result with
  | ok cycles =>
    generalize run config n m = o at h ⊢
    obtain ⟨result, after, log⟩ := o
    cases h
    rfl
  | error fault =>
    rw [Outcome.andThen_of_error h, machine_step_of_error (result_step_of_run_error h)]

/-! ## Visited machines -/

/-- A longer run visits what a shorter one visits, and goes on. -/
theorem visited_prefix {j k : Nat} (h : j ≤ k) (m : Machine) :
    visited config j m <+: visited config k m := by
  induction j generalizing k m with
  | zero => exact List.nil_prefix
  | succ j ih =>
    obtain ⟨k, rfl⟩ : ∃ i, k = i + 1 := ⟨k - 1, by omega⟩
    cases hs : (step config m).result with
    | ok cycles =>
      rw [visited_succ_of_ok hs, visited_succ_of_ok hs]
      exact List.cons_prefix_cons.mpr ⟨rfl, ih (by omega) _⟩
    | error fault =>
      rw [visited_succ_of_error hs]
      exact List.nil_prefix

/-- Where a shorter run ended, a longer one takes a step, unless that step fails. -/
theorem mem_visited_run {k n cycles : Nat} (hk : k < n)
    (h : (step config (run config k m).machine).result = .ok cycles) :
    (run config k m).machine ∈ visited config n m := by
  induction k generalizing n m with
  | zero =>
    obtain ⟨n, rfl⟩ : ∃ i, n = i + 1 := ⟨n - 1, by omega⟩
    have hok : (step config m).result = .ok cycles := h
    rw [visited_succ_of_ok hok]
    exact List.mem_cons_self
  | succ k ih =>
    obtain ⟨n, rfl⟩ : ∃ i, n = i + 1 := ⟨n - 1, by omega⟩
    cases hs : (step config m).result with
    | ok first =>
      rw [machine_run_succ_of_ok hs] at h ⊢
      rw [visited_succ_of_ok hs]
      exact List.mem_cons_of_mem m (ih (by omega) h)
    | error fault =>
      rw [machine_run_succ_of_error hs, hs] at h
      cases h

/-- A machine that a run visits is where a shorter run ended. -/
theorem exists_of_mem_visited {n : Nat} {v : Machine} (h : v ∈ visited config n m) :
    ∃ k < n, v = (run config k m).machine := by
  induction n generalizing m with
  | zero => cases h
  | succ n ih =>
    cases hs : (step config m).result with
    | ok cycles =>
      rw [visited_succ_of_ok hs] at h
      cases h with
      | head => exact ⟨0, by omega, rfl⟩
      | tail _ h =>
        obtain ⟨k, hk, rfl⟩ := ih h
        exact ⟨k + 1, by omega, (machine_run_succ_of_ok hs k).symm⟩
    | error fault =>
      rw [visited_succ_of_error hs] at h
      cases h

/-- Every step of a run but a last one that fails is one that succeeds. -/
theorem exists_ok_of_mem_visited (config : Config) (n : Nat) (m : Machine) :
    ∀ v ∈ visited config n m, ∃ cycles, (step config v).result = .ok cycles := by
  refine run_induction config
    (P := fun _ vs _ => ∀ v ∈ vs, ∃ cycles, (step config v).result = .ok cycles) ?stop ?go n m
  case stop => exact fun m v hv => absurd hv List.not_mem_nil
  case go =>
    intro m cycles rest last h ih
    exact List.forall_mem_cons.mpr ⟨⟨cycles, h⟩, ih⟩

end Machine

end M6502
