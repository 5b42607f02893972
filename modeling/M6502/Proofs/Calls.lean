import M6502.Proofs.Stack

/-!
# Calls and returns

A call puts its return address on the stack. As long as the program, from then on, pulls no more
than it has pushed and does not fill the page, the address stays below whatever nested calls and
pushes put there. The return that finds nothing above it goes on behind the call, with the stack
pointer where the call found it.

## Main statements

* `Machine.pc_leave_of_holds` — where a return goes on.
* `Machine.holds_run_of_jsr` — the return address stays where it is.
* `Machine.return_of_call` — a return goes on behind its call.
-/

namespace M6502

namespace Machine

open StackAccess StackPage

variable {config : Config} {m : Machine}

/-- A return goes on behind the address on the top of the stack. -/
theorem pc_leave_of_holds {w : Word} {stack : List Byte}
    (h : m.stackPage.Holds (w.low :: w.high :: stack)) : m.leave.registers.pc = w + 1 := by
  obtain ⟨hlow, hrest⟩ := h.pull
  have hhigh := hrest.pull.1
  rw [offset_pull_add_one] at hhigh
  have hlow : m.pulled 1 = w.low := hlow
  have hhigh : m.pulled 2 = w.high := hhigh
  rw [pc_leave, hlow, hhigh, Word.ofBytes_high_low]

theorem registers_step_of_rts {e : Encoding} {w : Word} {stack : List Byte}
    (hn : m.next? = some e) (hrts : e.instruction = .rts)
    (h : m.stackPage.Holds (w.low :: w.high :: stack)) :
    (step config m).machine.registers.pc = w + 1 ∧
      (step config m).machine.registers.sp = stackCellAt (m.registers.sp.low + 2) := by
  rw [machine_step_of_next? hn, hrts]
  exact ⟨pc_leave_of_holds (m := m.past .rts) h, sp_leave (m.past .rts)⟩

/-- What a call pushes stays on the stack, below the bytes that are pushed after it. -/
theorem holds_run_of_jsr (n : Nat) {e : Encoding} (hn : m.next? = some e)
    (hjsr : e.instruction = .jsr)
    (hspares : ∀ v ∈ visited config (n + 1) m, v.sparesStack config.order = true)
    (hdepth : ∀ ws, ws ≠ [] → ws <+: visited config (n + 1) m →
      2 ≤ depth (history ws) ∧ depth (history ws) ≤ 256) :
    ∃ rest, (run config (n + 1) m).machine.stackPage.Holds
        (rest ++ [(m.registers.pc + 2).low, (m.registers.pc + 2).high]) ∧
      (rest.length : Int) + 2 = depth (history (visited config (n + 1) m)) := by
  have hok : (step config m).result = .ok _ := congrArg Outcome.result (step_of_next? hn config)
  refine holds_run_of_pushes n hok ?_ hspares hdepth
  rw [accesses, hn]
  simp only [hjsr, accessesOf, replay]

/-- A return goes on behind its call. Between the two the program uses the stack as a stack, never
pulls what the call pushed, and has at most 256 bytes on the stack with it; at the return nothing
else is left there. The stack pointer then selects the cell that it selected before the call, and is
the same as before if it was in page one. -/
theorem return_of_call (config : Config) (n : Nat) (m : Machine) {call ret : Encoding}
    (hcall : m.next? = some call) (hjsr : call.instruction = .jsr)
    (hspares : ∀ v ∈ visited config (n + 1) m, v.sparesStack config.order = true)
    (hdepth : ∀ ws, ws ≠ [] → ws <+: visited config (n + 1) m →
      2 ≤ depth (history ws) ∧ depth (history ws) ≤ 256)
    (hmatch : depth (history (visited config (n + 1) m)) = 2)
    (hret : (run config (n + 1) m).machine.next? = some ret)
    (hrts : ret.instruction = .rts) :
    let after := (step config (run config (n + 1) m).machine).machine
    after.registers.pc.toNat = (m.registers.pc.toNat + 3) % 65536 ∧
      after.registers.sp.toNat = 0x0100 + m.registers.sp.toNat % 256 ∧
      (0x0100 ≤ m.registers.sp.toNat ∧ m.registers.sp.toNat ≤ 0x01FF →
        after.registers.sp = m.registers.sp) := by
  intro after
  obtain ⟨rest, hrest, hlength⟩ := holds_run_of_jsr n hcall hjsr hspares hdepth
  have hoffset := (path_run (n + 1) m hspares).offset_eq
  rw [hmatch] at hlength hoffset
  obtain rfl : rest = [] := List.eq_nil_of_length_eq_zero (by omega)
  obtain ⟨hpc, hsp⟩ := registers_step_of_rts hret hrts hrest
  have hlow : (run config (n + 1) m).machine.registers.sp.low + 2 = m.registers.sp.low := by
    simp only [offset, stackPage] at hoffset
    bv_omega
  have hspNat : after.registers.sp.toNat = 0x0100 + m.registers.sp.toNat % 256 := by
    rw [hsp, hlow, stackCellAt, Word.toNat_ofBytes, Word.toNat_low]
    rfl
  refine ⟨?_, hspNat, fun hpage => BitVec.eq_of_toNat_eq ?_⟩
  · rw [hpc]
    bv_omega
  · rw [hspNat]
    omega

/-- A call that wraps past the last address, with a stack pointer outside page one, of a subroutine
that calls another. Its return address lies on the first and the last cell of page one. -/
theorem return_of_wrapped_call :
    let memory := Memory.blank.load 0xFFFE [0x20, 0x00, 0x03]
    let memory := memory.load 0x0300 [0x20, 0x10, 0x03, 0x60]
    let m : Machine := ⟨{ Registers.powerOn with sp := 0x0200, pc := 0xFFFE },
      memory.load 0x0310 [0x48, 0x68, 0x60]⟩
    let after := (step .hardware (run .hardware 5 m).machine).machine
    after.registers.pc.toNat = 0x0001 ∧ after.registers.sp.toNat = 0x0100 := by
  intro _ _ m after
  have hcall : m.next? = some ⟨0x20, .jsr, 6⟩ := by decide +kernel
  have hspares : ∀ v ∈ visited .hardware 5 m, v.sparesStack .lowFirst = true := by decide +kernel
  have hbounds : ∀ k ≤ (visited .hardware 5 m).length, k ≠ 0 →
      2 ≤ depth (history ((visited .hardware 5 m).take k)) ∧
        depth (history ((visited .hardware 5 m).take k)) ≤ 256 := by decide +kernel
  have hmatch : depth (history (visited .hardware 5 m)) = 2 := by decide +kernel
  have hret : (run .hardware 5 m).machine.next? = some ⟨0x60, .rts, 6⟩ := by decide +kernel
  have hdepth (ws : List Machine) (hne : ws ≠ []) (hws : ws <+: visited .hardware 5 m) :
      2 ≤ depth (history ws) ∧ depth (history ws) ≤ 256 := by
    rw [List.prefix_iff_eq_take.mp hws]
    exact hbounds ws.length hws.length_le (List.length_eq_zero_iff.not.mpr hne)
  obtain ⟨hpc, hsp, -⟩ := return_of_call .hardware 4 m hcall rfl hspares hdepth hmatch hret rfl
  have hstart : m.registers.pc.toNat = 0xFFFE ∧ m.registers.sp.toNat = 0x0200 := ⟨rfl, rfl⟩
  rw [hstart.1] at hpc
  rw [hstart.2] at hsp
  rw [hpc, hsp]
  decide

end Machine

end M6502
