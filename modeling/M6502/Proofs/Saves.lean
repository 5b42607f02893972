import M6502.Proofs.Stack

/-!
# Saved registers

The status and the accumulator can be saved on the stack and restored later. As long as the program
in between uses the stack as a stack, pulls no more than it has pushed, and does not fill the page,
the saved byte stays in its cell, and a pull that finds nothing above it restores the register.

A saved status loses the two bits that are no flags. A restored accumulator sets the flags that
every load sets.

## Main statements

* `Machine.read_run_of_push` — a saved byte stays in its cell.
* `Machine.pulled_run_of_push` — the matching pull takes it.
* `Machine.restore_of_save` — what is restored, and what is not.
-/

namespace M6502

namespace Machine

open StackAccess StackPage

variable {config : Config} {m : Machine}

/-! ## The saved byte -/

section Saved

variable {n cycles : Nat} {saved : Byte} (hok : (step config m).result = .ok cycles)
  (hsaved : m.accesses = [.push m.registers.sp.low saved])
  (hspares : ∀ v ∈ visited config (n + 1) m, v.sparesStack config.order = true)
  (hdepth : ∀ ws, ws ≠ [] → ws <+: visited config (n + 1) m →
    1 ≤ depth (history ws) ∧ depth (history ws) ≤ 256)
include hok hsaved hspares hdepth

/-- The byte that the first step of a run pushes is in its cell at the end. -/
theorem read_run_of_push :
    (run config (n + 1) m).machine.memory.read (stackCellAt m.registers.sp.low) = saved := by
  have hreplay : replay m.accesses [] = some [saved] := by
    rw [hsaved]
    rfl
  obtain ⟨rest, hrest, hlength⟩ := holds_run_of_pushes n hok hreplay hspares hdepth
  have hoffset := (path_run (n + 1) m hspares).offset_eq
  have hcell : (run config (n + 1) m).machine.stackPage.offset + 1 + .ofNat 8 rest.length =
      m.registers.sp.low := by
    rw [← hlength, List.length_singleton] at hoffset
    simp only [offset, stackPage] at hoffset ⊢
    bv_omega
  have hread := hrest rest.length saved (by simp)
  rwa [hcell] at hread

/-- The byte is in its cell at every boundary in between. -/
theorem read_run_of_push_of_le {k : Nat} (hk : k ≤ n) :
    (run config (k + 1) m).machine.memory.read (stackCellAt m.registers.sp.low) = saved := by
  have hpre : visited config (k + 1) m <+: visited config (n + 1) m :=
    visited_prefix (Nat.succ_le_succ hk) m
  exact read_run_of_push hok hsaved (fun v hv => hspares v (hpre.subset hv))
    fun ws hne hws => hdepth ws hne (hws.trans hpre)

/-- A pull that finds nothing above the byte takes it, and selects the cell that was selected before
the byte was pushed. -/
theorem pulled_run_of_push (hmatch : depth (history (visited config (n + 1) m)) = 1) :
    (run config (n + 1) m).machine.pulled 1 = saved ∧
      (run config (n + 1) m).machine.registers.sp.low + 1 = m.registers.sp.low := by
  have hoffset := (path_run (n + 1) m hspares).offset_eq
  have hlow : (run config (n + 1) m).machine.registers.sp.low + 1 = m.registers.sp.low := by
    rw [hmatch] at hoffset
    simp only [offset, stackPage] at hoffset
    bv_omega
  refine ⟨?_, hlow⟩
  rw [pulled, hlow]
  exact read_run_of_push hok hsaved hspares hdepth

end Saved

/-! ## Restoring -/

theorem toNat_stackCellAt_low (w : Word) : (stackCellAt w.low).toNat = 0x0100 + w.toNat % 256 := by
  rw [stackCellAt, Word.toNat_ofBytes, Word.toNat_low]
  rfl

/-- A step that pulls the status takes over the flags of the byte. -/
theorem registers_step_of_plp {e : Encoding} (hn : m.next? = some e)
    (hplp : e.instruction = .stack .plp) :
    (step config m).machine.registers.status = .ofPulledByte (m.pulled 1) ∧
      (step config m).machine.registers.sp = stackCellAt (m.registers.sp.low + 1) ∧
      (step config m).machine.memory = m.memory := by
  rw [machine_step_of_next? hn, hplp]
  refine ⟨?_, ?_, rfl⟩
  · exact (congrArg Registers.status (registers_plp (m.past (.stack .plp)))).trans
      (Status.flagsOnly_ofPulledByte _)
  · exact congrArg Registers.sp (registers_plp (m.past (.stack .plp)))

/-- A step that pulls the accumulator loads the byte. -/
theorem registers_step_of_pla {e : Encoding} (hn : m.next? = some e)
    (hpla : e.instruction = .stack .pla) :
    (step config m).machine.registers.a = m.pulled 1 ∧
      (step config m).machine.registers.status = m.registers.status.apply (.value (m.pulled 1)) ∧
      (step config m).machine.registers.sp = stackCellAt (m.registers.sp.low + 1) := by
  rw [machine_step_of_next? hn, hpla]
  have hregisters := registers_pla (m.past (.stack .pla))
  exact ⟨congrArg Registers.a hregisters, congrArg Registers.status hregisters,
    congrArg Registers.sp hregisters⟩

/-- What is saved on the stack comes back. Between the push and the pull the program uses the stack
as a stack, never pulls the saved byte, and has at most 256 bytes on the stack with it; at the pull
nothing else is left there. The stack pointer then selects the cell that it selected before.

A restored status has the flags of the saved one and no other bits; while it is saved, its byte in
memory has both bits that are no flags. A restored accumulator is the saved one, and sets the zero
and the negative flag; the other flags stay as the program in between left them. -/
theorem restore_of_save (config : Config) (n : Nat) (m : Machine) {save restore : Encoding}
    (hsave : m.next? = some save)
    (hspares : ∀ v ∈ visited config (n + 1) m, v.sparesStack config.order = true)
    (hdepth : ∀ ws, ws ≠ [] → ws <+: visited config (n + 1) m →
      1 ≤ depth (history ws) ∧ depth (history ws) ≤ 256)
    (hmatch : depth (history (visited config (n + 1) m)) = 1)
    (hrestore : (run config (n + 1) m).machine.next? = some restore) :
    let before := (run config (n + 1) m).machine
    let after := (step config before).machine
    let slot := stackCellAt m.registers.sp.low
    (save.instruction = .stack .php → restore.instruction = .stack .plp →
      after.registers.status = m.registers.status.flagsOnly ∧
      (m.registers.status.extraBits = 0 → after.registers.status = m.registers.status) ∧
      after.registers.sp.toNat = 0x0100 + m.registers.sp.toNat % 256 ∧
      (∀ k ≤ n, (run config (k + 1) m).machine.memory.read slot =
        after.registers.status.bits ||| 0x30) ∧
      after.memory.read slot = after.registers.status.bits ||| 0x30) ∧
    (save.instruction = .stack .pha → restore.instruction = .stack .pla →
      after.registers.a = m.registers.a ∧
      after.registers.status.has .zero = decide (after.registers.a = 0) ∧
      after.registers.status.has .negative = after.registers.a.msb ∧
      (∀ f, f ≠ .zero → f ≠ .negative →
        after.registers.status.has f = before.registers.status.has f) ∧
      after.registers.sp.toNat = 0x0100 + m.registers.sp.toNat % 256) := by
  intro before after slot
  have hok : (step config m).result = .ok _ := congrArg Outcome.result (step_of_next? hsave config)
  constructor
  · intro hphp hplp
    have hpushed : m.accesses = [.push m.registers.sp.low m.registers.status.pushedByte] := by
      rw [accesses, hsave]
      simp only [hphp, accessesOf, Status.pushedByte_eq]
    obtain ⟨hpulled, hlow⟩ := pulled_run_of_push hok hpushed hspares hdepth hmatch
    obtain ⟨hstatus, hsp, hmemory⟩ := registers_step_of_plp hrestore hplp
    have hflags : after.registers.status = m.registers.status.flagsOnly := by
      rw [hstatus, hpulled, Status.ofPulledByte_pushedByte]
    have hbyte : m.registers.status.pushedByte = after.registers.status.bits ||| 0x30 := by
      rw [hflags, Status.pushedByte_eq]
      rfl
    have hread {k : Nat} (hk : k ≤ n) := read_run_of_push_of_le hok hpushed hspares hdepth hk
    refine ⟨hflags, fun hbits => hflags.trans (Status.flagsOnly_eq_self hbits), ?_,
      fun k hk => (hread hk).trans hbyte, ?_⟩
    · rw [hsp, hlow, toNat_stackCellAt_low]
    · rw [hmemory, ← hbyte]
      exact hread (Nat.le_refl n)
  · intro hpha hpla
    have hpushed : m.accesses = [.push m.registers.sp.low m.registers.a] := by
      rw [accesses, hsave]
      simp only [hpha, accessesOf]
    obtain ⟨hpulled, hlow⟩ := pulled_run_of_push hok hpushed hspares hdepth hmatch
    obtain ⟨ha, hstatus, hsp⟩ := registers_step_of_pla hrestore hpla
    refine ⟨ha.trans hpulled, ?_, ?_, fun f hzero hnegative => ?_, ?_⟩
    · rw [hstatus, Status.has_apply, ha]
      rfl
    · rw [hstatus, Status.has_apply, ha]
      rfl
    · rw [hstatus, Status.has_apply]
      cases f with
      | zero => exact absurd rfl hzero
      | negative => exact absurd rfl hnegative
      | carry | irqDisable | decimal | overflow => rfl
    · rw [hsp, hlow, toNat_stackCellAt_low]

theorem depth_of_take (vs : List Machine) (low high : Int)
    (h : ∀ k ≤ vs.length, k ≠ 0 →
      low ≤ depth (history (vs.take k)) ∧ depth (history (vs.take k)) ≤ high) :
    ∀ ws, ws ≠ [] → ws <+: vs → low ≤ depth (history ws) ∧ depth (history ws) ≤ high := by
  intro ws hne hws
  rw [List.prefix_iff_eq_take.mp hws]
  exact h ws.length hws.length_le (List.length_eq_zero_iff.not.mpr hne)

/-- A status with every bit set is saved at the first cell of page one, with a stack pointer outside
that page, and restored behind a call that pushes to the last cells and a subroutine that clears a
flag. An accumulator comes back behind code that loads another value and sets the carry. -/
theorem restore_of_wrapped_save :
    let memory := Memory.blank.load 0x0200 [0x08, 0x20, 0x10, 0x02, 0x28]
    let m : Machine := ⟨{ Registers.powerOn with sp := 0x0300, pc := 0x0200, status := ⟨0xFF⟩ },
      memory.load 0x0210 [0x18, 0x48, 0x68, 0x60]⟩
    let n : Machine := ⟨{ Registers.powerOn with a := 0x80, pc := 0x0200 },
      Memory.blank.load 0x0200 [0x48, 0xA9, 0x00, 0x38, 0x68]⟩
    let status := step .hardware (run .hardware 6 m).machine
    let accumulator := step .hardware (run .hardware 3 n).machine
    status.machine.registers.status = ⟨0xCF⟩ ∧ status.machine.registers.sp.toNat = 0x0100 ∧
      status.machine.memory.read 0x0100 = 0xFF ∧ accumulator.machine.registers.a = 0x80 ∧
      accumulator.machine.registers.status.has .carry = true := by
  intro _ m n status accumulator
  have hspares : ∀ v ∈ visited .hardware 6 m, v.sparesStack .lowFirst = true := by decide +kernel
  have hdepth := depth_of_take (visited .hardware 6 m) 1 256 (by decide +kernel)
  have hsave : m.next? = some ⟨0x08, .stack .php, 3⟩ := by decide +kernel
  have hrestore : (run .hardware 6 m).machine.next? = some ⟨0x28, .stack .plp, 4⟩ := by
    decide +kernel
  have hmatch : depth (history (visited .hardware 6 m)) = 1 := by decide +kernel
  obtain ⟨hstatus, -, hsp, -, hbyte⟩ :=
    (restore_of_save .hardware 5 m hsave hspares hdepth hmatch hrestore).1 rfl rfl
  have hsparesA : ∀ v ∈ visited .hardware 3 n, v.sparesStack .lowFirst = true := by decide +kernel
  have hdepthA := depth_of_take (visited .hardware 3 n) 1 256 (by decide +kernel)
  have hsaveA : n.next? = some ⟨0x48, .stack .pha, 3⟩ := by decide +kernel
  have hrestoreA : (run .hardware 3 n).machine.next? = some ⟨0x68, .stack .pla, 4⟩ := by
    decide +kernel
  have hmatchA : depth (history (visited .hardware 3 n)) = 1 := by decide +kernel
  have hcarry : (run .hardware 3 n).machine.registers.status.has .carry = true := by decide +kernel
  obtain ⟨ha, -, -, hkeep, -⟩ :=
    (restore_of_save .hardware 2 n hsaveA hsparesA hdepthA hmatchA hrestoreA).2 rfl rfl
  have hstart : m.registers.sp.toNat = 0x0300 ∧ m.registers.status = ⟨0xFF⟩ := ⟨rfl, rfl⟩
  have hslot : stackCellAt m.registers.sp.low = 0x0100 := by decide +kernel
  rw [hstart.2] at hstatus
  rw [hstart.1] at hsp
  rw [hstatus, hslot] at hbyte
  refine ⟨?_, ?_, ?_, ?_, ?_⟩
  · rw [hstatus]
    decide
  · rw [hsp]
  · rw [hbyte]
    decide
  · rw [ha]
  · rw [hkeep .carry nofun nofun, hcarry]

end Machine

end M6502
