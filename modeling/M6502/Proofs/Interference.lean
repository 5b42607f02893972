import M6502.Proofs.Reads

/-!
# What decides a run

A run is decided by what it looks at. Of the registers these are the documented ones, with the four
flags that instructions consult; a push of the status shows the other two as well. Of the memory
these are the cells that a step reads before any step has written them. Whatever else two machines
hold, they take the same steps in the same time, and what they held apart stays apart where nothing
is written.

## Main definitions

* `Machine.Written` — the cells that the first steps of a run write.

## Main statements

* `View.Alike.run` — machines that are alike where a run reads are alike after it.
* `Machine.run_congr_architecture` — what is not documented decides nothing.
* `Machine.run_congr_clearInert` — the decimal and the interrupt flag decide nothing, but a push of
  the status shows them.
* `Machine.run_congr_unread` — cells that are not read before they are written decide nothing.
-/

namespace M6502

variable {config : Config} {m n : Machine}

namespace Machine

/-- The first `count` steps of a run write the cell. -/
def Written (config : Config) (count : Nat) (m : Machine) (a : Word) : Prop :=
  ∃ k < count, a ∈ (run config k m).machine.writeSet config.order

instance (config : Config) (count : Nat) (m : Machine) (a : Word) :
    Decidable (Written config count m a) :=
  inferInstanceAs (Decidable (∃ k < count, _))

theorem not_written_zero (config : Config) (m : Machine) (a : Word) : ¬Written config 0 m a := by
  rintro ⟨k, hk, -⟩
  omega

theorem written_succ (config : Config) (count : Nat) (m : Machine) (a : Word) :
    Written config (count + 1) m a ↔
      Written config count m a ∨ a ∈ (run config count m).machine.writeSet config.order := by
  simp only [Written, Nat.lt_succ_iff_lt_or_eq, or_and_right, exists_or, exists_eq_left]

/-- A cell that a run does not write holds what it held. -/
theorem read_run_of_not_written {count : Nat} {a : Word} (h : ¬Written config count m a) :
    (run config count m).machine.memory.read a = m.memory.read a := by
  refine read_run count m fun v hv hmem => h ?_
  obtain ⟨k, hk, rfl⟩ := exists_of_mem_visited hv
  exact ⟨k, hk, hmem⟩

/-- Where a run pushes the status, it takes a step. -/
theorem mem_visited_of_pushesStatus {k count : Nat} (hk : k < count)
    (h : (run config k m).machine.pushesStatus = true) :
    (run config k m).machine ∈ visited config count m := by
  obtain ⟨e, hn, -⟩ := (Option.any_eq_true _ _).mp h
  exact mem_visited_run hk (congrArg Outcome.result (step_of_next? hn config))

theorem step_of_php {e : Encoding} (hn : m.next? = some e) (hphp : e.instruction = .stack .php)
    (config : Config) :
    (step config m).result = .ok e.cycles ∧
      (step config m).machine = (m.past (.stack .php)).push m.registers.status.pushedByte := by
  rw [step_of_next? hn, executed, hphp]
  exact ⟨rfl, rfl⟩

end Machine

namespace View

variable {v : View} {T : Word → Prop}

section Run

variable (h : v.Alike T m n) (hv : Flag.consulted ⊆ v.flags) (config : Config) (count : Nat)
  (hread : ∀ k < count, ∀ a ∈ (Machine.run config k m).machine.readSet config.order,
    T a ∨ Machine.Written config k m a)
  (hpush : ∀ k < count, (Machine.run config k m).machine.pushesStatus = true →
    Flag.all ⊆ v.flags)
include h hv hread hpush

/-- Two machines that are alike where the steps of a run read, come to the same result and are alike
at its end, also in the cells that it writes. A step may read what an earlier one has written. -/
theorem Alike.run :
    (Machine.run config count m).result = (Machine.run config count n).result ∧
      v.Alike (fun a => T a ∨ Machine.Written config count m a)
        (Machine.run config count m).machine (Machine.run config count n).machine := by
  induction count with
  | zero => exact ⟨rfl, h.mono fun a ha => ha.resolve_right (Machine.not_written_zero config m a)⟩
  | succ count ih =>
    obtain ⟨hresult, halike⟩ := ih (fun k hk => hread k (by omega)) fun k hk => hpush k (by omega)
    -- What the last step reads besides `T` was written before, and is the same since then.
    have hlast := halike.step hv (hread count (Nat.lt_succ_self count))
      (hpush count (Nat.lt_succ_self count))
    constructor
    · rw [Machine.result_run_succ, Machine.result_run_succ, hresult, hlast.1]
    · rw [Machine.machine_run_succ, Machine.machine_run_succ]
      refine hlast.2.mono fun a ha => ?_
      rwa [Machine.written_succ, ← or_assoc] at ha

/-- The runs of such machines write the same cells. -/
theorem Alike.written_iff (a : Word) :
    Machine.Written config count m a ↔ Machine.Written config count n a := by
  refine exists_congr fun k => and_congr_right fun hk => ?_
  have halike := (h.run hv config k (fun j hj => hread j (by omega)) fun j hj =>
    hpush j (by omega)).2
  rw [halike.writeSet_eq (hread k hk)]

end Run

/-- Two machines with the same memory are told apart by a push of the status alone. -/
theorem Agree.run (h : v.Agree m.registers n.registers) (hmemory : m.memory = n.memory)
    (hv : Flag.consulted ⊆ v.flags) (config : Config) (count : Nat)
    (hpush : ∀ x ∈ Machine.visited config count m, x.pushesStatus = true → Flag.all ⊆ v.flags) :
    (Machine.run config count m).result = (Machine.run config count n).result ∧
      (Machine.run config count m).machine.memory = (Machine.run config count n).machine.memory ∧
      v.Agree (Machine.run config count m).machine.registers
        (Machine.run config count n).machine.registers := by
  have halike : v.Alike (fun _ => True) m n := ⟨h, fun a _ => congrArg (Memory.read · a) hmemory⟩
  obtain ⟨hresult, hend⟩ := halike.run hv config count (fun _ _ _ _ => .inl trivial)
    fun k hk hp => hpush _ (Machine.mem_visited_of_pushesStatus hk hp) hp
  exact ⟨hresult, Memory.ext_read fun a => hend.memory a (.inl trivial), hend.registers⟩

/-- A push of the status tells two machines with the same memory apart, in the bits of the flags in
which they differ. -/
theorem Agree.step_of_php (h : v.Agree m.registers n.registers) (hmemory : m.memory = n.memory)
    {e : Encoding} (hnext : m.next? = some e) (hphp : e.instruction = .stack .php)
    (config : Config) :
    (Machine.step config m).result = (Machine.step config n).result ∧
      v.Agree (Machine.step config m).machine.registers (Machine.step config n).machine.registers ∧
      ∀ a i, (a = m.registers.stackCell → ∀ f : Flag, f.bit = i → f ∈ v.flags) →
        ((Machine.step config m).machine.memory.read a).getLsbD i =
          ((Machine.step config n).machine.memory.read a).getLsbD i := by
  have hnext' : n.next? = some e := by
    rwa [Machine.next?, Machine.opcode, ← h.pc, ← hmemory]
  obtain ⟨hresult, hmachine⟩ := Machine.step_of_php hnext hphp config
  obtain ⟨hresult', hmachine'⟩ := Machine.step_of_php hnext' hphp config
  have hpast : v.Agree (m.past (.stack .php)).registers (n.past (.stack .php)).registers :=
    h.advance _
  rw [hmachine, hmachine']
  refine ⟨hresult.trans hresult'.symm, hpast.push _ _, fun a i ha => ?_⟩
  rw [Machine.push, Machine.push, Memory.read_write, Memory.read_write, ← hpast.stackCell_eq]
  split
  · next heq => exact h.getLsbD_pushedByte_eq (ha heq.symm)
  · exact congrArg (fun memory => (memory.read a).getLsbD i) hmemory

end View

namespace Machine

/-- What is kept and never used decides nothing: the bits of the status that are no flags, the page
of the stack pointer, and the latches. Two machines with the same memory whose documented registers
and flags are the same run to the same result, to the same memory, and to the same documented
registers and flags. -/
theorem run_congr_architecture (config : Config) (count : Nat)
    (h : View.architecture.Agree m.registers n.registers) (hmemory : m.memory = n.memory) :
    (run config count m).result = (run config count n).result ∧
      (run config count m).machine.memory = (run config count n).machine.memory ∧
      View.architecture.Agree (run config count m).machine.registers
        (run config count n).machine.registers :=
  h.run hmemory (by decide) config count fun _ _ _ => List.Subset.refl _

/-- A status with both bits that are no flags, a stack pointer outside of page one and a pending
interrupt, against none of them: the status and the low byte of the stack pointer are pushed, and a
branch on the pulled status is taken. -/
theorem run_of_unlike_storage :
    let memory := Memory.blank.load 0x0200 [0x08, 0xBA, 0x8A, 0x48, 0x68, 0x28, 0xB0, 0x10]
    let m : Machine := ⟨{ Registers.powerOn with
      sp := 0x7F00, pc := 0x0200, status := ⟨0x31⟩, nmiPending := true }, memory⟩
    let n : Machine := ⟨{ Registers.powerOn with
      sp := 0x0100, pc := 0x0200, status := ⟨0x01⟩ }, memory⟩
    (run .hardware 7 m).result.toOption = some 21 ∧
      (run .hardware 7 n).machine.registers.pc = 0x0218 ∧
      (run .hardware 7 n).machine.memory.read 0x01FF = 0xFF := by
  intro memory m n
  have hagree : View.architecture.Agree m.registers n.registers :=
    ⟨rfl, rfl, rfl, rfl, by decide, by decide, nofun, nofun, nofun, nofun⟩
  have hresult : (run .hardware 7 n).result.toOption = some 21 := by decide +kernel
  have hpc : (run .hardware 7 m).machine.registers.pc = 0x0218 := by decide +kernel
  have hread : (run .hardware 7 m).machine.memory.read 0x01FF = 0xFF := by decide +kernel
  obtain ⟨hcycles, hmemory, hend⟩ := run_congr_architecture .hardware 7 hagree rfl
  rw [hcycles, ← hmemory, ← hend.pc]
  exact ⟨hresult, hpc, hread⟩

/-- The decimal and the interrupt flag are kept and decide nothing, until the status is pushed. Two
machines that differ in these flags alone run to the same result, to the same memory, and to
registers that differ in these flags alone. A push of the status from two such machines writes bytes
that differ in the bits of these flags alone. -/
theorem run_congr_clearInert (config : Config)
    (h : m.registers.clearInert = n.registers.clearInert) (hmemory : m.memory = n.memory) :
    (∀ count, (∀ x ∈ visited config count m, x.pushesStatus = false) →
      (run config count m).result = (run config count n).result ∧
      (run config count m).machine.memory = (run config count n).machine.memory ∧
      (run config count m).machine.registers.clearInert =
        (run config count n).machine.registers.clearInert) ∧
    ∀ e, m.next? = some e → e.instruction = .stack .php →
      let after := step config m
      let after' := step config n
      after.result = after'.result ∧
      after.machine.registers.clearInert = after'.machine.registers.clearInert ∧
      (∀ a, a ≠ m.registers.stackCell →
        after.machine.memory.read a = after'.machine.memory.read a) ∧
      ∀ i, i ≠ Flag.irqDisable.bit → i ≠ Flag.decimal.bit →
        (after.machine.memory.read m.registers.stackCell).getLsbD i =
          (after'.machine.memory.read m.registers.stackCell).getLsbD i := by
  have hagree := View.agree_withoutInert_iff.mpr h
  constructor
  · intro count hpush
    obtain ⟨hresult, hmem, hend⟩ := hagree.run hmemory (List.Subset.refl _) config count
      fun x hx hp => absurd hp (by rw [hpush x hx]; decide)
    exact ⟨hresult, hmem, View.agree_withoutInert_iff.mp hend⟩
  · intro e hnext hphp after after'
    obtain ⟨hresult, hend, hbits⟩ := hagree.step_of_php hmemory hnext hphp config
    refine ⟨hresult, View.agree_withoutInert_iff.mp hend, fun a hne => ?_, fun i hirq hdec => ?_⟩
    · exact BitVec.eq_of_getLsbD_eq fun i _ => hbits a i fun heq => absurd heq hne
    · refine hbits _ i fun _ f hf => ?_
      cases f with
      | irqDisable => exact absurd hf.symm hirq
      | decimal => exact absurd hf.symm hdec
      | carry | zero | overflow | negative => decide

/-- An addition does not look at the decimal flag; a push of the status shows it, and the interrupt
flag, in two bits of one byte. -/
theorem run_of_unlike_decimal :
    let memory := Memory.blank.load 0x0200 [0x69, 0x09, 0x08]
    let registers := { Registers.powerOn with a := 0x09, pc := 0x0200 }
    let m : Machine := ⟨{ registers with status := ⟨0x0D⟩ }, memory⟩
    let n : Machine := ⟨{ registers with status := ⟨0x01⟩ }, memory⟩
    let pushed (m : Machine) := (step .hardware (m.goto 0x0202)).machine.memory.read 0x0100
    (run .hardware 1 m).result.toOption = some 2 ∧
      (run .hardware 1 m).machine.registers.clearInert.a = 0x13 ∧
      pushed m ≠ pushed n ∧
      ∀ i, i ≠ 2 → i ≠ 3 → (pushed m).getLsbD i = (pushed n).getLsbD i := by
  intro memory registers m n pushed
  have hclear : m.registers.clearInert = n.registers.clearInert := by decide
  have hquiet : ∀ x ∈ visited .hardware 1 m, x.pushesStatus = false := by decide +kernel
  have hresult : (run .hardware 1 n).result.toOption = some 2 := by decide +kernel
  have ha : (run .hardware 1 n).machine.registers.clearInert.a = 0x13 := by decide +kernel
  obtain ⟨hcycles, -, hend⟩ := (run_congr_clearInert .hardware hclear rfl).1 1 hquiet
  have hclear' : (m.goto 0x0202).registers.clearInert = (n.goto 0x0202).registers.clearInert := by
    decide
  have hnext : (m.goto 0x0202).next? = some ⟨0x08, .stack .php, 3⟩ := by decide +kernel
  obtain ⟨-, -, -, hbits⟩ :=
    (run_congr_clearInert .hardware hclear' rfl).2 _ hnext rfl
  have hcell : (m.goto 0x0202).registers.stackCell = 0x0100 := by decide
  rw [hcell] at hbits
  refine ⟨?_, ?_, by decide +kernel, hbits⟩
  · rw [hcycles, hresult]
  · rw [hend, ha]

/-- A run depends on the bytes that it reads. Let two memories be equal outside of `S`, and let the
run from the first one read a cell of `S` only after it has written that cell. Then the run from the
second one comes to the same result and to the same registers. The memories end up equal outside of
`S` and in the cells that were written; where nothing was written each keeps its own bytes. -/
theorem run_congr_unread (config : Config) (count : Nat) (m : Machine) (memory : Memory)
    (S : Word → Prop) (hsame : ∀ a, ¬S a → m.memory.read a = memory.read a)
    (hread : ∀ k < count, ∀ a ∈ (run config k m).machine.readSet config.order,
      S a → Written config k m a) :
    let o := run config count m
    let o' := run config count { m with memory }
    o.result = o'.result ∧ o.machine.registers = o'.machine.registers ∧
      (∀ a, ¬S a ∨ Written config count m a →
        o.machine.memory.read a = o'.machine.memory.read a) ∧
      ∀ a, ¬Written config count m a →
        o.machine.memory.read a = m.memory.read a ∧ o'.machine.memory.read a = memory.read a := by
  intro o o'
  have halike : View.full.Alike (fun a => ¬S a) m { m with memory } :=
    ⟨View.agree_full_iff.mpr rfl, hsame⟩
  have hreads : ∀ k < count, ∀ a ∈ (run config k m).machine.readSet config.order,
      ¬S a ∨ Written config k m a :=
    fun k hk a ha => not_or_of_imp (hread k hk a ha)
  have hpush : ∀ k < count, (run config k m).machine.pushesStatus = true →
      Flag.all ⊆ View.full.flags :=
    fun _ _ _ => List.Subset.refl _
  obtain ⟨hresult, hend⟩ := halike.run (by decide) config count hreads hpush
  refine ⟨hresult, View.agree_full_iff.mp hend.registers, hend.memory, fun a hkept => ?_⟩
  have hkept' : ¬Written config count { m with memory } a :=
    (halike.written_iff (by decide) config count hreads hpush a).not.mp hkept
  exact ⟨read_run_of_not_written hkept, read_run_of_not_written hkept'⟩

/-- A program that writes its third instruction before it gets there, over an undocumented opcode or
over a return. What a cell holds that it never reads stays there. -/
theorem run_of_patched_opcode :
    let m : Machine := ⟨{ Registers.powerOn with pc := 0x0200 },
      Memory.blank.load 0x0200 [0xA9, 0xE8, 0x8D, 0x05, 0x02, 0x02]⟩
    let memory := (m.memory.write 0x0205 0x60).write 0x0300 0xAA
    let last := run .hardware 3 { m with memory }
    last.result.toOption = some 8 ∧ last.machine.registers.x = 1 ∧
      last.machine.memory.read 0x0205 = 0xE8 ∧ last.machine.memory.read 0x0300 = 0xAA := by
  intro m memory last
  have hsame : ∀ a, ¬(a = 0x0205 ∨ a = 0x0300) → m.memory.read a = memory.read a := by
    intro a ha
    obtain ⟨hpatch, hunread⟩ := not_or.mp ha
    exact ((Memory.read_write_of_ne _ _ (Ne.symm hunread)).trans
      (Memory.read_write_of_ne _ _ (Ne.symm hpatch))).symm
  have hread : ∀ k < 3, ((run .hardware k m).machine.readSet .lowFirst).all (fun a =>
      a = 0x0205 ∨ a = 0x0300 → Written .hardware k m a) = true := by
    decide +kernel
  have hresult : (run .hardware 3 m).result.toOption = some 8 := by decide +kernel
  have hx : (run .hardware 3 m).machine.registers.x = 1 := by decide +kernel
  have hpatched : (run .hardware 3 m).machine.memory.read 0x0205 = 0xE8 := by decide +kernel
  have hwritten : Written .hardware 3 m 0x0205 := by decide +kernel
  have hkept : ¬Written .hardware 3 m 0x0300 := by decide +kernel
  obtain ⟨hcycles, hregisters, hmemory, hown⟩ :=
    run_congr_unread .hardware 3 m memory (fun a => a = 0x0205 ∨ a = 0x0300) hsame
      fun k hk a ha => of_decide_eq_true (List.all_eq_true.mp (hread k hk) a ha)
  refine ⟨?_, ?_, ?_, ?_⟩
  · rw [← hcycles, hresult]
  · rw [← hregisters, hx]
  · rw [← hmemory _ (.inr hwritten), hpatched]
  · rw [(hown _ hkept).2, Memory.read_write_self]

end Machine

end M6502
