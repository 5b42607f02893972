import M6502.Proofs.Flow
import M6502.Proofs.Ownership
import M6502.Proofs.StackPage
import M6502.Proofs.Writes

/-!
# The stack over a run

Seven instructions push bytes or pull them. As long as nothing else moves the stack pointer or
writes a data cell in page one, a run does to page one what its pushes and pulls do, whatever else
it executes and wherever the pointer starts.

## Main definitions

* `Machine.stackPage` — page one and the stack pointer.
* `Machine.accessesOf`, `Machine.accesses`, `history` — the bytes that an instruction, a step, and
  the steps of a run push and pull.
* `Instruction.Receives` — what an instruction makes of the bytes that it pulls.
* `Machine.sparesStack` — a step uses the stack as a stack, or not at all.

## Main statements

* `Machine.path_step`, `Machine.path_run` — a step and a run do to page one what they push and
  pull.
* `Machine.replay_run` — within its bounds the stack of a run is an ordinary stack.
* `Machine.holds_run_of_pushes` — what is pushed first stays on the stack.
* `Machine.stack_run` — the same together, with the bytes that a run pulls.
-/

namespace M6502

/-- What an instruction makes of the bytes that it pulls, in the order in which they come. Of a
status byte the six flags stay. -/
def Instruction.Receives (i : Instruction) (bytes : List Byte) (after : Registers) : Prop :=
  match i with
  | stack .pla => bytes = [after.a]
  | stack .plp => ∃ status, bytes = [status] ∧ after.status.bits = status &&& 0xCF
  | rts => ∃ low high, bytes = [low, high] ∧ after.pc = .ofBytes high low + 1
  | rti => ∃ status low high, bytes = [status, low, high] ∧
      after.status.bits = status &&& 0xCF ∧ after.pc = .ofBytes high low
  | stack .pha | stack .php | read .. | write .. | modify .. | register _ | branch _ | jmp _ | jsr
  | brk => bytes = []

namespace Machine

def stackPage (m : Machine) : StackPage where
  pointer := m.registers.sp
  cells o := m.memory.read (stackCellAt o)

/-- The bytes that an instruction at the program counter pushes or pulls. The flags are pushed with
the two other bits of the status set, and a call pushes the address of its own last byte. -/
def accessesOf (m : Machine) (i : Instruction) : List StackAccess :=
  let s := m.registers.sp.low
  match i with
  | .stack .pha => [.push s m.registers.a]
  | .stack .php => [.push s ((m.registers.status.bits &&& 0xCF) ||| 0x30)]
  | .jsr => [.push s (m.registers.pc + 2).high, .push (s - 1) (m.registers.pc + 2).low]
  | .stack .pla | .stack .plp => [.pull (s + 1) (m.pulled 1)]
  | .rts => [.pull (s + 1) (m.pulled 1), .pull (s + 2) (m.pulled 2)]
  | .rti => [.pull (s + 1) (m.pulled 1), .pull (s + 2) (m.pulled 2), .pull (s + 3) (m.pulled 3)]
  | .read .. | .write .. | .modify .. | .register _ | .branch _ | .jmp _ | .brk => []

/-- The bytes that a step pushes or pulls. -/
def accesses (m : Machine) : List StackAccess :=
  match m.next? with
  | some e => m.accessesOf e.instruction
  | none => []

/-- An instruction does not set the stack pointer outright, and its data cell, if it changes one, is
not in page one. -/
def spares (m : Machine) (order : ByteOrder) (i : Instruction) : Bool :=
  match i with
  | .register op => op != .txs
  | .write _ mode | .modify _ (.data mode) => (m.cell order mode).high != 1
  | .read .. | .modify _ .accumulator | .stack _ | .branch _ | .jmp _ | .jsr | .rts | .rti
  | .brk => true

/-- A step uses the stack as a stack, or not at all. -/
def sparesStack (m : Machine) (order : ByteOrder) : Bool :=
  match m.next? with
  | some e => m.spares order e.instruction
  | none => true

end Machine

/-- The bytes that the steps at some machines push and pull. -/
def history (vs : List Machine) : List StackAccess := vs.flatMap Machine.accesses

theorem history_cons (m : Machine) (vs : List Machine) :
    history (m :: vs) = m.accesses ++ history vs := rfl

namespace Machine

open StackAccess StackPage

/-! ## An instruction -/

variable (m : Machine) (order : ByteOrder)

theorem stackPage_push (v : Byte) : (m.push v).stackPage = m.stackPage.push v := by
  refine congrArg (StackPage.mk _) (funext fun o => ?_)
  change (m.memory.write (stackCellAt m.registers.sp.low) v).read (stackCellAt o) =
    if o = m.registers.sp.low then v else m.memory.read (stackCellAt o)
  simp only [Memory.read_write, stackCellAt_inj, @eq_comm _ o]

theorem path_pushWord (w : Word) :
    Path m.stackPage [.push m.registers.sp.low w.high, .push (m.registers.sp.low - 1) w.low]
      (m.pushWord w).stackPage := by
  rw [pushWord, stackPage_push, stackPage_push]
  exact .push rfl (.push (m.stackPage.offset_push w.high).symm (.nil _))

theorem sp_leave : m.leave.registers.sp = stackCellAt (m.registers.sp.low + 2) := by
  rw [leave_eq]
  rfl

theorem sp_resume : m.resume.registers.sp = stackCellAt (m.registers.sp.low + 3) := by
  rw [resume_eq]
  rfl

theorem stackPage_leave : m.leave.stackPage = m.stackPage.pull.pull := by
  rw [stackPage, memory_leave, sp_leave, StackPage.pull, offset_pull_add_one]
  rfl

theorem stackPage_resume : m.resume.stackPage = m.stackPage.pull.pull.pull := by
  rw [stackPage, memory_resume, sp_resume, StackPage.pull, offset_pull_pull_add_one]
  rfl

/-- An instruction that owns no stack pointer and writes no cell of page one leaves page one as it
is. -/
theorem stackPage_execute {i : Instruction} (hsp : .sp ∉ i.owned.registers)
    (hcells : ∀ o, stackCellAt o ∉ m.writes order i) :
    (m.execute order i).stackPage = m.stackPage := by
  have hpointer := (m.frame_execute order i).sp hsp
  have hread := fun o => m.read_execute order (hcells o)
  rw [stackPage, hpointer]
  exact congrArg _ (funext hread)

theorem stackCellAt_notMem_singleton {a : Word} (h : (a.high != 1) = true) (o : Byte) :
    stackCellAt o ∉ [a] := by
  rw [List.mem_singleton]
  rintro rfl
  rw [stackCellAt, Word.high_ofBytes] at h
  cases h

/-- An instruction does to page one what it pushes and pulls. -/
theorem path_execute {i : Instruction} (h : m.spares order i = true) :
    Path m.stackPage (m.accessesOf i) (m.execute order i).stackPage := by
  have hquiet (hsp : .sp ∉ i.owned.registers) (hcells : ∀ o, stackCellAt o ∉ m.writes order i) :
      Path m.stackPage [] (m.execute order i).stackPage := by
    rw [m.stackPage_execute order hsp hcells]
    exact .nil _
  cases i with
  | read op source => exact hquiet op.sp_notMem_owned fun _ => List.not_mem_nil
  | write op mode => exact hquiet List.not_mem_nil (stackCellAt_notMem_singleton h)
  | modify op target =>
    cases target with
    | accumulator =>
      exact hquiet (List.not_mem_cons_of_ne_of_not_mem nofun nofun) fun _ => List.not_mem_nil
    | data mode => exact hquiet List.not_mem_nil (stackCellAt_notMem_singleton h)
  | register op => exact hquiet (op.sp_notMem_owned h) fun _ => List.not_mem_nil
  | branch op | jmp mode | brk => exact hquiet List.not_mem_nil fun _ => List.not_mem_nil
  | stack op =>
    cases op with
    | pha =>
      change Path _ _ ((m.past _).push _).stackPage
      rw [stackPage_push]
      exact .push rfl (.nil _)
    | php =>
      change Path _ _ ((m.past _).push m.registers.status.pushedByte).stackPage
      rw [stackPage_push, m.registers.status.pushedByte_eq]
      exact .push rfl (.nil _)
    | pla | plp => exact .pull rfl rfl (.nil _)
  | jsr =>
    rw [accessesOf, ← m.pc_past_jsr_sub_one]
    exact path_pushWord (m.past .jsr) _
  | rts =>
    have hpage : (m.execute order .rts).stackPage = m.stackPage.pull.pull :=
      stackPage_leave (m.past .rts)
    rw [hpage]
    exact .pull rfl rfl (.pull m.stackPage.offset_pull_add_one.symm rfl (.nil _))
  | rti =>
    have hpage : (m.execute order .rti).stackPage = m.stackPage.pull.pull.pull :=
      stackPage_resume (m.past .rti)
    rw [hpage]
    exact .pull rfl rfl (.pull m.stackPage.offset_pull_add_one.symm rfl
      (.pull m.stackPage.offset_pull_pull_add_one.symm rfl (.nil _)))

/-- The accesses of an instruction are all pushes or all pulls. -/
theorem oneWay_accessesOf (i : Instruction) : oneWay (m.accessesOf i) = true := by
  cases i with
  | stack op => cases op <;> rfl
  | read op source | write op mode | modify op target | register op | branch op | jmp mode | jsr
  | rts | rti | brk => rfl

/-- An instruction goes on with the bytes that it pulls. -/
theorem receives_execute (i : Instruction) :
    i.Receives ((m.accessesOf i).filterMap pulled?) (m.execute order i).registers := by
  have hpull : (m.registers.pull m.memory).1 = m.pulled 1 := by
    rw [Registers.pull, Registers.stackCell_setStackOffset]
    rfl
  have hstatus : (Status.ofPulledByte (m.registers.pull m.memory).1).flagsOnly.bits =
      m.pulled 1 &&& 0xCF := by
    rw [hpull, Status.flagsOnly_ofPulledByte]
    rfl
  cases i with
  | stack op =>
    cases op with
    | pha | php => rfl
    | pla => exact congrArg (fun v => [v]) hpull.symm
    | plp => exact ⟨_, rfl, hstatus⟩
  | rts => exact ⟨_, _, rfl, (m.past .rts).pc_leave⟩
  | rti => exact ⟨_, _, _, rfl, hstatus, (m.past .rti).pc_resume⟩
  | read op source | write op mode | modify op target | register op | branch op | jmp mode | jsr
  | brk => rfl

/-! ## Steps and runs -/

variable {m} {order} {config : Config}

theorem path_step (h : m.sparesStack config.order = true) :
    Path m.stackPage m.accesses (step config m).machine.stackPage := by
  unfold accesses
  unfold sparesStack at h
  cases hn : m.next? with
  | some e =>
    rw [hn] at h
    rw [machine_step_of_next? hn]
    exact m.path_execute config.order h
  | none =>
    obtain ⟨pc, hs⟩ := machine_step_of_undocumented hn config
    rw [hs]
    exact .nil m.stackPage

theorem oneWay_accesses (m : Machine) : oneWay m.accesses = true := by
  unfold accesses
  cases m.next? with
  | some e => exact m.oneWay_accessesOf e.instruction
  | none => rfl

/-- A run does to page one what its steps push and pull. -/
theorem path_run (n : Nat) (m : Machine)
    (h : ∀ v ∈ visited config n m, v.sparesStack config.order = true) :
    Path m.stackPage (history (visited config n m)) (run config n m).machine.stackPage := by
  revert h
  refine run_induction config (P := fun m vs last =>
    (∀ v ∈ vs, v.sparesStack config.order = true) →
      Path m.stackPage (history vs) last.stackPage) ?stop ?go n m
  case stop => exact fun m _ => .nil m.stackPage
  case go =>
    intro m cycles rest last _ ih hvs
    rw [history_cons]
    exact (path_step (hvs m List.mem_cons_self)).append
      (ih fun v hv => hvs v (List.mem_cons_of_mem m hv))

/-- A run whose stack, at every boundary between two steps, neither runs empty nor holds more than
256 bytes, pulls what it would pull from an ordinary stack. Bytes below that stack stay where they
are. -/
theorem replay_run (n : Nat) (m : Machine) {stack base : List Byte}
    (h : ∀ v ∈ visited config n m, v.sparesStack config.order = true)
    (hold : m.stackPage.Holds (stack ++ base))
    (hdepth : ∀ ws, ws <+: visited config n m → 0 ≤ stack.length + depth (history ws) ∧
      stack.length + base.length + depth (history ws) ≤ 256) :
    ∃ rest, replay (history (visited config n m)) stack = some rest ∧
      (run config n m).machine.stackPage.Holds (rest ++ base) ∧
      (rest.length : Int) = stack.length + depth (history (visited config n m)) := by
  refine run_induction config (P := fun m vs last => ∀ stack : List Byte,
    (∀ v ∈ vs, v.sparesStack config.order = true) → m.stackPage.Holds (stack ++ base) →
    (∀ ws, ws <+: vs → 0 ≤ stack.length + depth (history ws) ∧
      stack.length + base.length + depth (history ws) ≤ 256) →
    ∃ rest, replay (history vs) stack = some rest ∧ last.stackPage.Holds (rest ++ base) ∧
      (rest.length : Int) = stack.length + depth (history vs))
    ?stop ?go n m stack h hold hdepth
  case stop =>
    intro m stack _ hold _
    exact ⟨stack, rfl, hold, (Int.add_zero _).symm⟩
  case go =>
    intro m cycles rest last _ ih stack hvs hold hdepth
    obtain ⟨-, hroom⟩ := hdepth [] List.nil_prefix
    obtain ⟨hlow, hhigh⟩ := hdepth [m] (List.cons_prefix_cons.mpr ⟨rfl, List.nil_prefix⟩)
    have hone : history [m] = m.accesses := List.append_nil _
    simp only [history, List.flatMap_nil, depth] at hroom
    rw [hone] at hlow hhigh
    obtain ⟨mid, hstep, hmid, hcount⟩ := (path_step (hvs m List.mem_cons_self)).replay_eq
      (oneWay_accesses m) hold (by omega) hlow hhigh
    obtain ⟨final, hrest, hfinal, htotal⟩ := ih mid
      (fun v hv => hvs v (List.mem_cons_of_mem m hv)) hmid fun ws hws => by
        have hws := hdepth (m :: ws) (List.cons_prefix_cons.mpr ⟨rfl, hws⟩)
        rw [history_cons, depth_append] at hws
        omega
    refine ⟨final, ?_, hfinal, ?_⟩
    · rw [history_cons, replay_append, hstep]
      exact hrest
    · rw [history_cons, depth_append]
      omega

/-- What the first step of a run pushes stays on the stack, below the bytes that are pushed after
it, as long as the run neither pulls it nor fills the page. -/
theorem holds_run_of_pushes (n : Nat) {cycles : Nat} {saved : List Byte}
    (hok : (step config m).result = .ok cycles) (hsaved : replay m.accesses [] = some saved)
    (hspares : ∀ v ∈ visited config (n + 1) m, v.sparesStack config.order = true)
    (hdepth : ∀ ws, ws ≠ [] → ws <+: visited config (n + 1) m →
      saved.length ≤ depth (history ws) ∧ depth (history ws) ≤ 256) :
    ∃ rest, (run config (n + 1) m).machine.stackPage.Holds (rest ++ saved) ∧
      (rest.length : Int) + saved.length = depth (history (visited config (n + 1) m)) := by
  rw [visited_succ_of_ok hok] at hspares hdepth ⊢
  rw [machine_run_succ_of_ok hok]
  have hone : history [m] = m.accesses := List.append_nil _
  have hfirst := hdepth [m] (List.cons_ne_nil m [])
    (List.cons_prefix_cons.mpr ⟨rfl, List.nil_prefix⟩)
  rw [hone] at hfirst
  have hempty : m.stackPage.Holds ([] ++ []) := .nil _
  have hlow : 0 ≤ ([] : List Byte).length + depth m.accesses := by
    rw [List.length_nil]
    omega
  have hhigh : ([] : List Byte).length + ([] : List Byte).length + depth m.accesses ≤ 256 := by
    rw [List.length_nil]
    omega
  obtain ⟨pushed, hreplay, hpushed, hcount⟩ := (path_step (hspares m List.mem_cons_self)).replay_eq
    (oneWay_accesses m) hempty (by decide) hlow hhigh
  obtain rfl : saved = pushed := Option.some.inj (hsaved.symm.trans hreplay)
  have hbase : (step config m).machine.stackPage.Holds ([] ++ saved) := by simpa using hpushed
  rw [List.length_nil] at hcount
  obtain ⟨rest, -, hrest, hlength⟩ := replay_run n (step config m).machine
    (fun v hv => hspares v (List.mem_cons_of_mem m hv)) hbase fun ws hws => by
      have hws := hdepth (m :: ws) (List.cons_ne_nil m ws)
        (List.cons_prefix_cons.mpr ⟨rfl, hws⟩)
      rw [history_cons, depth_append] at hws
      rw [List.length_nil]
      omega
  refine ⟨rest, hrest, ?_⟩
  rw [history_cons, depth_append, hlength, List.length_nil]
  omega

/-- Page one and the low byte of the stack pointer are a stack over every run that uses the stack as
a stack. The pointer counts the bytes that are pushed and pulled, and is in page one from the first
of them on. A cell holds the byte pushed last to it, or what it held at the start, and that is what
a pull returns. As long as the stack neither runs empty nor holds more than 256 bytes, the pulls
return what an ordinary stack returns. What is pulled is what the pulling instruction goes on
with. -/
theorem stack_run (config : Config) (n : Nat) (m : Machine)
    (h : ∀ v ∈ visited config n m, v.sparesStack config.order = true) :
    let vs := visited config n m
    let as := history vs
    let last := (run config n m).machine
    (last.registers.sp.toNat : Int) % 256 = (m.registers.sp.toNat - depth as) % 256 ∧
    (as ≠ [] → 0x0100 ≤ last.registers.sp.toNat ∧ last.registers.sp.toNat ≤ 0x01FF) ∧
    (∀ o, last.memory.read (stackCellAt o) =
      (lastPushed as o).getD (m.memory.read (stackCellAt o))) ∧
    (∀ before o v after, as = before ++ .pull o v :: after →
      v = (lastPushed before o).getD (m.memory.read (stackCellAt o))) ∧
    ((∀ ws, ws <+: vs → 0 ≤ depth (history ws) ∧ depth (history ws) ≤ 256) →
      ∃ stack, replay as [] = some stack ∧ (stack.length : Int) = depth as) ∧
    ∀ v ∈ vs, ∀ e, v.next? = some e →
      e.instruction.Receives (v.accesses.filterMap pulled?) (step config v).machine.registers := by
  intro vs as last
  have hpath : Path m.stackPage as last.stackPage := path_run n m h
  refine ⟨?_, ?_, fun o => hpath.cells_eq o, ?_, ?_, ?_⟩
  · have hoffset := hpath.offset_eq
    simp only [offset, stackPage, Word.toNat_low] at hoffset
    omega
  · intro hne
    have hhigh := congrArg BitVec.toNat (hpath.high_pointer hne)
    rw [Word.toNat_high] at hhigh
    have hpage : last.registers.sp.toNat / 256 = 1 := hhigh
    omega
  · intro before o v after has
    exact (has ▸ hpath).value_eq
  · intro hdepth
    have hbase : m.stackPage.Holds ([] ++ []) := .nil _
    obtain ⟨stack, hreplay, -, hlength⟩ := replay_run n m h hbase fun ws hws => by
      have hws := hdepth ws hws
      simp only [List.length_nil]
      omega
    exact ⟨stack, hreplay, by simpa using hlength⟩
  · intro v _ e hn
    rw [machine_step_of_next? hn, accesses, hn]
    exact v.receives_execute config.order e.instruction

/-- A stack pointer outside page one, at the first cell of the page: two pushes wrap to the last
cell, and a pull returns the status byte that the second of them pushed there. -/
theorem stack_run_of_wrapped_pushes :
    let m : Machine :=
      ⟨{ Registers.powerOn with a := 0x55, sp := 0x0300, pc := 0x0200, status := ⟨0xC1⟩ },
        Memory.blank.load 0x0200 [0x48, 0x08, 0x68]⟩
    let last := (run .hardware 3 m).machine
    (last.registers.sp.toNat : Int) % 256 = 255 ∧ last.memory.read 0x0100 = 0x55 ∧
      last.memory.read 0x01FF = 0xF1 ∧
      ∃ stack, replay (history (visited .hardware 3 m)) [] = some stack ∧ stack.length = 1 := by
  intro m last
  have hspares : ∀ v ∈ visited .hardware 3 m, v.sparesStack .lowFirst = true := by decide +kernel
  have hhistory : history (visited .hardware 3 m) =
      [.push 0x00 0x55, .push 0xFF 0xF1, .pull 0xFF 0xF1] := by decide +kernel
  have hbounds : ∀ k ≤ (visited .hardware 3 m).length,
      0 ≤ depth (history ((visited .hardware 3 m).take k)) ∧
        depth (history ((visited .hardware 3 m).take k)) ≤ 256 := by decide +kernel
  obtain ⟨hpointer, -, hcells, -, hreplay, -⟩ := stack_run .hardware 3 m hspares
  obtain ⟨stack, hstack, hlength⟩ := hreplay fun ws hws => by
    rw [List.prefix_iff_eq_take.mp hws]
    exact hbounds ws.length hws.length_le
  rw [hhistory] at hpointer hcells hlength
  refine ⟨hpointer.trans (by decide), ?_, ?_, stack, hstack, Int.ofNat.inj hlength⟩
  · exact (hcells 0x00).trans rfl
  · exact (hcells 0xFF).trans rfl

end Machine

end M6502
