import Mathlib.Algebra.GroupWithZero.Nat
import M6502.Proofs.Iteration
import M6502.Proofs.Wording

/-!
# The log as an account of a run

A run writes to the log what its steps write, in their order, and nothing else: one trace for every
instruction, with one more event before it for a break, and one warning for every undocumented
opcode. So the log tells how many steps were taken, and how many cycles they took. The total of a
run is a number of 64 bits; the sum of the cycles is not.

## Main definitions

* `Event.trace?`, `Event.isSkip` — what an event says about a step.
* `Machine.entries`, `Machine.lines` — what a step writes, if it succeeds: events, and the text of
  their lines from the numbers that they show.
* `Fault.event`, `Fault.line`, `closing` — what a run writes behind its steps.

## Main statements

* `Machine.log_step_of_ok`, `Machine.log_step_of_error` — the log of a step.
* `Machine.log_run` — the log of a run.
* `Machine.map_line_entries` — the entries of a step have its lines.
* `Machine.count_entries`, `Machine.count_log_run`, `Cpu.total_eq_of_run` — steps and cycles, as the
  log tells them.
* `Command.log_accounts_for_run` — the log of a run that a program asks for.
-/

namespace M6502

/-- The executed instruction that an event reports. -/
def Event.trace? : Event → Option Trace
  | executed trace => some trace
  | _ => none

/-- An event reports that an undocumented opcode was passed over. -/
def Event.isSkip : Event → Bool
  | illegalOpcode _ _ .skip => true
  | _ => false

/-- The executed instructions that a log reports, in order. -/
def traces (log : List Event) : List Trace := log.filterMap Event.trace?

/-- The number of opcodes that a log reports as passed over. -/
def skips (log : List Event) : Nat := log.countP Event.isSkip

@[simp] theorem traces_append (log log' : List Event) :
    traces (log ++ log') = traces log ++ traces log' :=
  List.filterMap_append

@[simp] theorem skips_append (log log' : List Event) :
    skips (log ++ log') = skips log + skips log' :=
  List.countP_append

/-- The event that a fault leaves in the log. -/
def Fault.event : Fault → Event
  | illegalOpcode opcode address => .illegalOpcode opcode address .fault

/-- The line that a fault leaves in the log. -/
def Fault.line : Fault → String
  | illegalOpcode opcode address => warningLine opcode.toNat address.toNat

theorem Fault.line_event (f : Fault) : f.event.line = f.line := by
  obtain ⟨opcode, address⟩ := f
  exact (Event.line_illegalOpcode opcode address .fault).trans (String.append_empty)

/-- What stands in the log of a run behind all of its steps. -/
def closing : Except Fault Nat → List Event
  | .ok _ => []
  | .error fault => [fault.event]

@[simp] theorem closing_map (r : Except Fault Nat) (f : Nat → Nat) :
    closing (r.map f) = closing r := by
  cases r <;> rfl

namespace Machine

/-- What a step that succeeds writes to the log. A trace names the opcode at the program counter,
the cycles that the step takes, and the registers as it leaves them. -/
def entries (config : Config) (m : Machine) : List Event :=
  match m.next? with
  | some e =>
    let trace : Trace :=
      { address := m.registers.pc
        opcode := m.memory.read m.registers.pc
        instruction := e.instruction
        cycles := cost config m
        registers := (step config m).machine.registers }
    if e.instruction = .brk then [.brk m.registers.pc, .executed trace] else [.executed trace]
  | none => [.illegalOpcode (m.memory.read m.registers.pc) m.registers.pc .skip]

/-- The lines of a step that succeeds. An opcode that the chart names was executed, with the cycles
and the registers that the step comes to; any other was passed over. -/
def lines (config : Config) (m : Machine) : List String :=
  let address := m.registers.pc.toNat
  let opcode := m.memory.byteAt address
  match names? opcode with
  | some (name, mode) =>
    let trace := traceLine address opcode name mode (cost config m)
      (step config m).machine.registers
    if name = "BRK" then [breakLine address, trace] else [trace]
  | none => [warningLine opcode address ++ " skipped as NOP"]

variable {config : Config} {m : Machine}

/-! ## The log of a run -/

theorem toList_announcement (m : Machine) (i : Instruction) :
    (m.announcement i).toList = if i = .brk then [.brk m.registers.pc] else [] := by
  cases i <;> rfl

/-- A step that succeeds writes its entries. -/
theorem log_step_of_ok {cycles : Nat} (h : (step config m).result = .ok cycles) :
    (step config m).log.toList = entries config m := by
  rcases step_cases config m with ⟨e, hn, hs⟩ | ⟨hn, -, hs⟩ | ⟨-, -, hs⟩
  · have hcost : cost config m = e.cycles + m.extraCycles config.order e.instruction := by
      rw [cost, hs]
      rfl
    rw [entries, hn, hcost, hs]
    simp only [executed, Array.toList_push, toList_announcement]
    split <;> rfl
  · rw [entries, hn, hs]
    rfl
  · rw [hs] at h
    cases h

/-- A step that fails writes its fault. -/
theorem log_step_of_error {fault : Fault} (h : (step config m).result = .error fault) :
    (step config m).log.toList = [fault.event] := by
  obtain ⟨hn, hp⟩ := (result_step_eq_error_iff config m).mp ⟨fault, h⟩
  rw [eq_illegalOpcode_of_error h, step_of_fault hn hp]
  rfl

/-- The log of a longer run starts with that of its first step. -/
theorem log_run_succ_of_ok {cycles : Nat} (h : (step config m).result = .ok cycles) (n : Nat) :
    (run config (n + 1) m).log =
      (step config m).log ++ (run config n (step config m).machine).log := by
  rw [run_succ]
  generalize step config m = o at h ⊢
  obtain ⟨result, after, log⟩ := o
  cases h
  rfl

/-- A run writes the entries of its steps in their order, and its fault behind them. -/
theorem log_run (config : Config) (n : Nat) (m : Machine) :
    (run config n m).log.toList =
      (visited config n m).flatMap (entries config) ++ closing (run config n m).result := by
  induction n generalizing m with
  | zero => rfl
  | succ n ih =>
    cases h : (step config m).result with
    | ok cycles =>
      rw [log_run_succ_of_ok h, visited_succ_of_ok h, result_run_succ_of_ok h, closing_map,
        Array.toList_append, log_step_of_ok h, ih, List.flatMap_cons, List.append_assoc]
    | error fault =>
      rw [visited_succ_of_error h, result_run_succ_of_error h, run_succ,
        Outcome.andThen_of_error h, log_step_of_error h]
      rfl

/-! ## Lines -/

/-- The entries of a step have its lines. -/
theorem map_line_entries (config : Config) (m : Machine) :
    (entries config m).map Event.line = lines config m := by
  have hopcode : m.memory.byteAt m.registers.pc.toNat = m.opcode.toNat :=
    (m.memory.toNat_read m.registers.pc).symm
  have hnames : names? m.opcode.toNat =
      m.next?.map fun e => (e.instruction.mnemonic, e.instruction.mode.name) :=
    names?_eq_decode m.opcode
  simp only [entries, lines, hopcode, hnames]
  cases m.next? with
  | some e =>
    simp only [Option.map_some, Instruction.mnemonic_eq_brk_iff]
    split <;> simp only [List.map_cons, List.map_nil, Event.line_executed, Event.line_brk] <;> rfl
  | none =>
    simp only [Option.map_none, List.map_cons, List.map_nil, Event.line_illegalOpcode]
    rfl

/-- So have the entries of many steps. -/
theorem map_line_flatMap_entries (config : Config) (ms : List Machine) :
    (ms.flatMap (entries config)).map Event.line = ms.flatMap (lines config) := by
  simp only [List.map_flatMap, map_line_entries]

/-! ## Counting -/

/-- A step writes one trace with its cycles, or one warning that stands for two cycles. -/
theorem count_entries {cycles : Nat} (h : (step config m).result = .ok cycles) :
    let log := entries config m
    (traces log).length + skips log = 1 ∧
      ((traces log).map Trace.cycles).sum + 2 * skips log = cycles := by
  rw [← cost_of_ok h]
  rcases step_cases config m with ⟨e, hn, -⟩ | ⟨hn, -, hs⟩ | ⟨-, -, hs⟩
  · rw [entries, hn]
    dsimp only
    split <;> exact ⟨rfl, rfl⟩
  · rw [entries, hn, cost, hs]
    exact ⟨rfl, rfl⟩
  · rw [hs] at h
    cases h

/-- Of steps that succeed the log tells how many there were, and what they cost. -/
theorem count_flatMap_entries {ms : List Machine}
    (h : ∀ v ∈ ms, ∃ cycles, (step config v).result = .ok cycles) :
    let log := ms.flatMap (entries config)
    (traces log).length + skips log = ms.length ∧
      ((traces log).map Trace.cycles).sum + 2 * skips log = (ms.map (cost config)).sum := by
  induction ms with
  | nil => exact ⟨rfl, rfl⟩
  | cons v ms ih =>
    obtain ⟨hsteps, hcycles⟩ := ih fun w hw => h w (List.mem_cons_of_mem v hw)
    obtain ⟨cycles, hv⟩ := h v List.mem_cons_self
    obtain ⟨hone, hcost⟩ := count_entries hv
    simp only [List.flatMap_cons, traces_append, skips_append, List.length_append, List.map_append,
      List.sum_append, List.length_cons, List.map_cons, List.sum_cons, cost_of_ok hv]
    omega

/-- The log of a run that succeeds tells how many steps it took, and its total. -/
theorem count_log_run {n total : Nat} (h : (run config n m).result = .ok total) :
    let log := (run config n m).log.toList
    (traces log).length + skips log = n ∧
      ((traces log).map Trace.cycles).sum + 2 * skips log = total := by
  obtain ⟨hlength, hsum⟩ := visited_of_ok h
  have hcount := count_flatMap_entries (exists_ok_of_mem_visited config n m)
  rw [hlength, hsum] at hcount
  rw [log_run, h, closing, List.append_nil]
  exact hcount

end Machine

open Machine

namespace Cpu

variable (c : Cpu) (n : Nat)

/-- A run writes the entries of its steps in their order, and its fault behind them. -/
theorem toList_log_run : (c.run n).log.toList =
    (visited c.config n c.machine).flatMap (entries c.config) ++
      closing (Machine.run c.config n c.machine).result := by
  rw [c.log_run n]
  exact Machine.log_run c.config n c.machine

/-- The log of a run that succeeds tells its total, which wraps if the run is too long. -/
theorem total_eq_of_run {total : Nat} (h : (c.run n).result = .ok total) :
    let log := (c.run n).log.toList
    let cycles := ((traces log).map Trace.cycles).sum + 2 * skips log
    (traces log).length + skips log = n ∧
      total = cycles % 2 ^ 64 ∧ (7 * n < 2 ^ 64 → total = cycles) := by
  intro log cycles
  obtain ⟨sum, hok, htotal⟩ := (c.result_run_eq_ok_iff n total).mp h
  obtain ⟨hsteps, hcycles⟩ := count_log_run hok
  rw [← c.log_run n] at hsteps hcycles
  have hcycles : cycles = sum := hcycles
  refine ⟨hsteps, ?_, fun hn => ?_⟩
  · rw [htotal, hcycles, BitVec.toNat_ofNat]
  · rw [c.run_eq_of_lt hn, hok] at h
    exact (Except.ok.inj h).symm.trans hcycles.symm

end Cpu

/-- The log of a run is an exact account of it. It has the entries of the steps that succeed, one
after the other: for an instruction one trace that names the address of its opcode, the opcode, the
instruction, the cycles of the step and the registers after it, and before that of a break one event
with the same address; for an undocumented opcode that is passed over one warning. A run that fails
at the step behind them writes one warning more, which names what its fault names. The text of the
lines is that of the steps and of the fault, and what it shows can be read back from it.

So in the log of a run that succeeds the traces and the warnings are as many as its steps, and the
cycles of the traces, with two for every warning, add up to its total: in 64 bits, and outright as
long as no sum of so many cycles needs more. -/
theorem Command.log_accounts_for_run (c : Cpu) (n : Nat) :
    let reply := perform c (.run n)
    let log := reply.log.toList
    let steps := visited c.config n c.machine
    let cycles := ((traces log).map Trace.cycles).sum + 2 * skips log
    steps = (List.range steps.length).map (fun k => after c.config k c.machine) ∧
    (∀ v ∈ steps, ∃ cycles, (Machine.step c.config v).result = .ok cycles) ∧
    (∀ events : List Event, events.map Event.line = log.map Event.line ↔
      events.map Event.shown = log.map Event.shown) ∧
    (∀ fault, reply.result = some (.error fault) →
      log = steps.flatMap (entries c.config) ++ [fault.event] ∧
      log.map Event.line = steps.flatMap (lines c.config) ++ [fault.line] ∧
      steps.length < n ∧
      (Machine.step c.config (after c.config steps.length c.machine)).result = .error fault) ∧
    ∀ total, reply.result = some (.ok total) →
      log = steps.flatMap (entries c.config) ∧
      log.map Event.line = steps.flatMap (lines c.config) ∧
      steps.length = n ∧ (traces log).length + skips log = n ∧
      total = cycles % 2 ^ 64 ∧ (7 * n < 2 ^ 64 → total = cycles) := by
  intro reply log steps cycles
  have hlog : log = steps.flatMap (entries c.config) ++
      closing (Machine.run c.config n c.machine).result := c.toList_log_run n
  refine ⟨visited_eq_map_after c.config n c.machine, exists_ok_of_mem_visited c.config n c.machine,
    fun events => Event.map_line_eq_iff, fun fault h => ?failed, fun total h => ?succeeded⟩
  case failed =>
    have herror := (c.result_run_eq_error_iff n fault).mp (Option.some.inj h)
    rw [herror, closing] at hlog
    refine ⟨hlog, ?_, visited_of_error herror⟩
    rw [hlog, List.map_append, map_line_flatMap_entries, List.map_singleton, fault.line_event]
  case succeeded =>
    have hrun : (c.run n).result = .ok total := Option.some.inj h
    obtain ⟨sum, hok, -⟩ := (c.result_run_eq_ok_iff n total).mp hrun
    rw [hok, closing, List.append_nil] at hlog
    refine ⟨hlog, ?_, (visited_of_ok hok).1, c.total_eq_of_run n hrun⟩
    rw [hlog, map_line_flatMap_entries]

/-- A break at the last address, and an undocumented opcode where it leads: it is passed over, or
the run fails there. -/
theorem Command.log_accounts_for_run_of_break_at_last_address :
    let m : Machine :=
      ⟨{ Registers.powerOn with pc := 0xFFFF }, Memory.blank.load 0x0001 [0x02]⟩
    let log := (perform ⟨m, .hardware⟩ (.run 2)).log.toList
    let failed := (perform ⟨m, .standard⟩ (.run 2)).log.toList
    log.map Event.line =
        ["DEBUG BRK at $FFFF",
          "TRACE $FFFF  00  BRK Implied  cyc=7  A=00 X=00 Y=00 SP=0100 P=00",
          "WARN illegal opcode $02 at $0001 skipped as NOP"] ∧
      (traces log).length + skips log = 2 ∧
      ((traces log).map Trace.cycles).sum + 2 * skips log = 9 ∧
      failed.map Event.line = (visited .standard 2 m).flatMap (lines .standard) ++
        ["WARN illegal opcode $02 at $0001"] := by
  intro m log failed
  obtain ⟨-, -, -, -, hsucceeded⟩ := log_accounts_for_run ⟨m, .hardware⟩ 2
  obtain ⟨-, -, -, hfailed, -⟩ := log_accounts_for_run ⟨m, .standard⟩ 2
  have hok : (perform ⟨m, .hardware⟩ (.run 2)).result = some (.ok 9) :=
    congrArg some ((Cpu.result_run_eq_ok_iff _ _ _).mpr
      ⟨9, Outcome.result_eq_ok_iff.mpr (by decide +kernel), rfl⟩)
  have herror : (perform ⟨m, .standard⟩ (.run 2)).result =
      some (.error (.illegalOpcode 0x02 0x0001)) := by
    obtain ⟨f, hf⟩ : ∃ f, (Machine.run .standard 2 m).result = .error f :=
      Outcome.exists_error_iff.mpr (by decide +kernel)
    have hlast : (Machine.run .standard 2 m).machine.opcode = 0x02 ∧
        (Machine.run .standard 2 m).machine.registers.pc = 0x0001 := by decide +kernel
    have hfault := eq_illegalOpcode_of_error (result_step_of_run_error hf)
    rw [hlast.1, hlast.2] at hfault
    exact congrArg some ((Cpu.result_run_eq_error_iff _ _ _).mpr
      (hf.trans (congrArg Except.error hfault)))
  obtain ⟨-, hlines, -, hsteps, -, hcycles⟩ := hsucceeded 9 hok
  obtain ⟨-, hwarning, -⟩ := hfailed _ herror
  refine ⟨?_, hsteps, (hcycles (by decide)).symm, ?_⟩
  · rw [hlines]
    decide +kernel
  · rw [hwarning]
    exact congrArg _ (by decide +kernel)

end M6502
