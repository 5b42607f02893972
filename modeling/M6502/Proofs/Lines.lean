import Mathlib.Data.List.Nodup
import M6502.Event.Line

/-!
# What a line shows

A line of the log can be read back. Its level is its first word; behind it stand words that are
always the same, fields of a fixed width, and two of any width that are followed by a blank. So from
the line of an event everything can be told about it, but for what the line of a trace leaves out:
the program counter and the latches after the instruction.

## Main definitions

* `Event.shown` — an event without what its line leaves out.
* `Operation.all` — all operations.

## Main statements

* `Operation.mnemonic_inj`, `Mode.name_inj`, `Instruction.eq_of_operation_of_mode` — an
  instruction is told by its name and its mode.
* `Trace.shown_eq_of_message` — what the line of an executed instruction shows.
* `Event.line_eq_iff` — two events have one line exactly if it shows the same of both.
* `Event.map_line_eq_iff` — the same of two logs.
-/

namespace M6502

open Text

/-- A trace without what its line leaves out. -/
def Trace.shown (t : Trace) : Trace :=
  { t with registers :=
      { t.registers with pc := 0, irqPending := false, nmiPending := false } }

/-- An event without what its line leaves out. -/
def Event.shown : Event → Event
  | executed t => .executed t.shown
  | e => e

/-! ## Taking a text apart -/

namespace Text

variable {s s' t t' : String}

/-- A fixed word, and a field of a known length behind it, are told from the rest. -/
theorem append_inj_of_length {u : String} (h : u ++ (s ++ t) = u ++ (s' ++ t'))
    (hl : s.toList.length = s'.toList.length) : s = s' ∧ t = t' := by
  have hlist := congrArg String.toList ((String.append_right_inj u).mp h)
  rw [String.toList_append, String.toList_append] at hlist
  obtain ⟨hs, ht⟩ := List.append_inj hlist hl
  exact ⟨String.toList_inj.mp hs, String.toList_inj.mp ht⟩

theorem append_hexByte_inj {u : String} {a b : Byte}
    (h : u ++ (hexByte a ++ t) = u ++ (hexByte b ++ t')) : a = b ∧ t = t' := by
  obtain ⟨hfield, hrest⟩ := append_inj_of_length h (by simp)
  exact ⟨hexByte_inj hfield, hrest⟩

theorem append_hexWord_inj {u : String} {v w : Word}
    (h : u ++ (hexWord v ++ t) = u ++ (hexWord w ++ t')) : v = w ∧ t = t' := by
  obtain ⟨hfield, hrest⟩ := append_inj_of_length h (by simp)
  exact ⟨hexWord_inj hfield, hrest⟩

/-- A fixed word, and a field without blanks behind it that a blank ends, are told from the rest. -/
theorem append_inj_of_blank {u v : String} (h : u ++ (s ++ (v ++ t)) = u ++ (s' ++ (v ++ t')))
    (hv : v.toList.head? = some ' ') (hs : ' ' ∉ s.toList) (hs' : ' ' ∉ s'.toList) :
    s = s' ∧ v ++ t = v ++ t' := by
  obtain ⟨rest, hrest⟩ := List.head?_eq_some_iff.mp hv
  have hfield {l : List Char} (hl : ' ' ∉ l) (r : List Char) :
      (l ++ ' ' :: r).takeWhile (· ≠ ' ') = l := by
    have hall : ∀ c ∈ l, decide (c ≠ ' ') = true := fun c hc =>
      decide_eq_true fun he => hl (he ▸ hc)
    rw [List.takeWhile_append_of_pos hall, List.takeWhile_cons_of_neg (by simp), List.append_nil]
  have h := (String.append_right_inj u).mp h
  have hlist := congrArg String.toList h
  simp only [String.toList_append, hrest, List.cons_append] at hlist
  have hs : s.toList = s'.toList := by
    rw [← hfield hs (rest ++ t.toList), hlist, hfield hs']
  obtain rfl := String.toList_inj.mp hs
  exact ⟨rfl, (String.append_right_inj s).mp h⟩

theorem blank_notMem_repr (n : Nat) : ' ' ∉ n.repr.toList := by
  rw [Nat.toList_repr]
  intro h
  exact absurd (Nat.isDigit_of_mem_toDigits (by decide) (by decide) h) (by decide)

end Text

/-! ## Names -/

namespace Operation

def all : List Operation :=
  [ReadOp.lda, .ldx, .ldy, .adc, .sbc, .and, .ora, .eor, .bit, .cmp, .cpx, .cpy].map .read ++
  [WriteOp.sta, .stx, .sty].map .write ++
  [ModifyOp.asl, .lsr, .rol, .ror, .inc, .dec].map .modify ++
  [RegisterOp.tax, .tay, .txa, .tya, .tsx, .txs, .inx, .iny, .dex, .dey, .clc, .sec, .cli, .sei,
    .clv, .cld, .sed, .nop].map .register ++
  [StackOp.pha, .php, .pla, .plp].map .stack ++
  [BranchOp.bpl, .bmi, .bvc, .bvs, .bcc, .bcs, .bne, .beq].map .branch ++
  [jmp, jsr, rts, rti, brk]

theorem mem_all (op : Operation) : op ∈ all := by
  cases op with
  | read op | write op | modify op | register op | stack op | branch op => cases op <;> decide
  | jmp | jsr | rts | rti | brk => decide

/-- An operation is told by its name. -/
theorem mnemonic_inj {o p : Operation} (h : o.mnemonic = p.mnemonic) : o = p := by
  have hnodup : (all.map mnemonic).Nodup := by decide +kernel
  exact List.inj_on_of_nodup_map hnodup o.mem_all p.mem_all h

theorem length_mnemonic (op : Operation) : op.mnemonic.toList.length = 3 := by
  have hall : ∀ op ∈ all, op.mnemonic.toList.length = 3 := by decide +kernel
  exact hall op op.mem_all

end Operation

namespace Mode

/-- A mode is told by its name. -/
theorem name_inj {m n : Mode} (h : m.name = n.name) : m = n := by
  have hnodup : (all.map name).Nodup := by decide +kernel
  exact List.inj_on_of_nodup_map hnodup m.mem_all n.mem_all h

theorem blank_notMem_name (m : Mode) : ' ' ∉ m.name.toList := by
  have hall : ∀ m ∈ all, ' ' ∉ m.name.toList := by decide +kernel
  exact hall m m.mem_all

end Mode

/-- An instruction is its operation and its mode. -/
theorem Instruction.eq_of_operation_of_mode {i j : Instruction} (ho : i.operation = j.operation)
    (hm : i.mode = j.mode) : i = j := by
  cases i <;> cases j <;> cases ho
  case read.read.refl op source source' => cases source <;> cases source' <;> cases hm <;> rfl
  case write.write.refl op mode mode' => cases hm; rfl
  case modify.modify.refl op target target' =>
    cases target <;> cases target' <;> cases hm <;> rfl
  case jmp.jmp.refl mode mode' => cases mode <;> cases mode' <;> first | rfl | cases hm
  all_goals rfl

/-! ## Lines -/

/-- An executed instruction is told from its message, but for what the message leaves out. -/
theorem Trace.shown_eq_of_message {t u : Trace} (h : t.message = u.message) :
    t.shown = u.shown := by
  have hlength := t.instruction.operation.length_mnemonic.trans
    u.instruction.operation.length_mnemonic.symm
  unfold message at h
  simp only [String.append_assoc] at h
  -- The fields from the left to the right, each with the rest of the message behind it.
  obtain ⟨haddress, h⟩ := append_hexWord_inj h
  obtain ⟨hopcode, h⟩ := append_hexByte_inj h
  obtain ⟨hname, h⟩ := append_inj_of_length h hlength
  obtain ⟨hmode, h⟩ := append_inj_of_blank h (by simp) (Mode.blank_notMem_name _)
    (Mode.blank_notMem_name _)
  obtain ⟨hnumber, h⟩ := append_inj_of_blank h (by simp) (blank_notMem_repr _)
    (blank_notMem_repr _)
  obtain ⟨ha, h⟩ := append_hexByte_inj h
  obtain ⟨hx, h⟩ := append_hexByte_inj h
  obtain ⟨hy, h⟩ := append_hexByte_inj h
  obtain ⟨hsp, h⟩ := append_hexWord_inj h
  have hbits := hexByte_inj ((String.append_right_inj _).mp h)
  have hinstruction := Instruction.eq_of_operation_of_mode (Operation.mnemonic_inj hname)
    (Mode.name_inj hmode)
  have hcycles : t.cycles = u.cycles := by
    rw [← Nat.ofDigitChars_ten_toDigits (n := t.cycles), ← Nat.toList_repr, hnumber,
      Nat.toList_repr, Nat.ofDigitChars_ten_toDigits]
  have hstatus : t.registers.status = u.registers.status := congrArg Status.mk hbits
  simp only [shown, haddress, hopcode, hinstruction, hcycles, ha, hx, hy, hsp, hstatus]

/-- A level is told from the line, and the message with it. -/
theorem Level.name_append_inj {l l' : Level} {s s' : String}
    (h : l.name ++ " " ++ s = l'.name ++ " " ++ s') : l = l' ∧ s = s' := by
  have hlist := congrArg String.toList h
  cases l <;> cases l' <;> simp [Level.name] at hlist ⊢ <;> exact String.toList_inj.mp hlist

/-- A configuration is told by its description. -/
theorem Config.describe_inj {c d : Config} (h : c.describe = d.describe) : c = d := by
  obtain ⟨policy, order⟩ := c
  obtain ⟨policy', order'⟩ := d
  revert h
  cases policy <;> cases policy' <;> cases order <;> cases order' <;> decide +kernel

namespace Event

/-- An event is told from its line, but for what the line of an executed instruction leaves
out. -/
theorem shown_eq_of_line {e f : Event} (h : e.line = f.line) : e.shown = f.shown := by
  unfold line at h
  obtain ⟨hlevel, hm⟩ := Level.name_append_inj h
  cases e <;> cases f <;> try cases hlevel
  case executed.executed t u => exact congrArg executed (Trace.shown_eq_of_message hm)
  case illegalOpcode.illegalOpcode opcode address policy opcode' address' policy' =>
    rw [message_illegalOpcode, message_illegalOpcode] at hm
    obtain ⟨hopcode, hm⟩ := append_hexByte_inj hm
    obtain ⟨haddress, hend⟩ := append_hexWord_inj hm
    have hpolicy : policy = policy' := by
      cases policy <;> cases policy' <;> simp at hend ⊢
    rw [hopcode, haddress, hpolicy]
  case created.created config config' =>
    unfold message at hm
    rw [Config.describe_inj ((String.append_right_inj _).mp hm)]
  case reset.reset pc sp pc' sp' =>
    unfold message at hm
    simp only [String.append_assoc] at hm
    obtain ⟨hpc, hm⟩ := append_hexWord_inj hm
    rw [hpc, hexWord_inj ((String.append_right_inj _).mp hm)]
  case brk.brk address address' =>
    unfold message at hm
    rw [hexWord_inj ((String.append_right_inj _).mp hm)]
  case unclaimed.unclaimed opcode address opcode' address' =>
    unfold message at hm
    simp only [String.append_assoc] at hm
    obtain ⟨hopcode, hm⟩ := append_hexByte_inj hm
    obtain ⟨haddress, -⟩ := append_hexWord_inj hm
    rw [hopcode, haddress]
  -- The three events of one level say different words.
  all_goals
    unfold message at hm
    have hlist := congrArg String.toList hm
    simp [Config.describe, record] at hlist

/-- The line of an executed instruction leaves out what is not shown. -/
theorem line_shown (e : Event) : e.shown.line = e.line := by
  cases e <;> rfl

/-- Two events have one line exactly if it shows the same of both. -/
theorem line_eq_iff {e f : Event} : e.line = f.line ↔ e.shown = f.shown :=
  ⟨shown_eq_of_line, fun h => by rw [← line_shown e, h, line_shown f]⟩

/-- Two logs have the same lines exactly if these show the same of both. -/
theorem map_line_eq_iff {es fs : List Event} :
    es.map line = fs.map line ↔ es.map shown = fs.map shown := by
  induction es generalizing fs with
  | nil => simp
  | cons e es ih =>
    cases fs with
    | nil => simp
    | cons f fs => simp only [List.map_cons, List.cons.injEq, line_eq_iff, ih]

end Event

end M6502
