import M6502.Proofs.Chains
import M6502.Proofs.Ownership

/-!
# Comparisons

A comparison leaves the flags of a difference and nothing else of it. They are found by other means
than those of a difference that is kept, which is a sum with a complement; still the two agree
wherever both decide a flag, so that a comparison can begin a difference of many bytes. The lowest
bytes are compared, and each pair above them is loaded and subtracted. The flags after the last byte
tell the order of the two numbers, both of them unsigned and of them in two's complement.

## Main definitions

* `ReadOp.compared?` — the register that a comparison compares with its operand.
* `LoadedDifference` — bytes are loaded and subtracted from, one after the other.
* `Comparison` — two numbers of many bytes are compared.

## Main statements

* `Registers.has_apply_difference` — a comparison and a difference agree.
* `Comparison.exists_chain` — a comparison of many bytes ends as a difference does.
* `Comparison.order_of_any_width` — what its flags tell.
-/

namespace M6502

/-- The register that a comparison compares with its operand. -/
def ReadOp.compared? (op : ReadOp) (r : Registers) : Option Byte :=
  match op with
  | cmp => some r.a
  | cpx => some r.x
  | cpy => some r.y
  | lda | ldx | ldy | adc | sbc | and | ora | eor | bit => none

/-- From the machine `m` on, a byte is loaded and one subtracted from it, the lowest bytes first.
Before each load anything may be done to the machine that leaves the carry as it is. -/
inductive LoadedDifference (config : Config) :
    Machine → List Byte → List Byte → Machine → Prop where
  | nil (m : Machine) : LoadedDifference config m [] [] m
  | cons {m ready loaded next last : Machine} {old a b r : Byte} {as bs : List Byte}
      (carry : ready.registers.status.carry = m.registers.status.carry)
      (load : Digit config .lda ready old a a loaded)
      (digit : Digit config .sbc loaded a b r next)
      (rest : LoadedDifference config next as bs last) :
      LoadedDifference config m (a :: as) (b :: bs) last

/-- From the machine `m` on, the lowest bytes of two numbers are compared, and those above them are
loaded and subtracted. -/
inductive Comparison (config : Config) : Machine → List Byte → List Byte → Machine → Prop where
  | intro {m next last : Machine} {a b r : Byte} {as bs : List Byte}
      (lowest : Digit config .cmp m a b r next) (higher : LoadedDifference config next as bs last) :
      Comparison config m (a :: as) (b :: bs) last

/-! ## One byte -/

/-- A byte that is added as its complement, with the carry set, is subtracted. -/
theorem ofNat_add_complement (a b : Byte) :
    BitVec.ofNat 8 (a.toNat + (~~~b).toNat + 1) = a - b := by
  have ha := a.isLt
  have hb := b.isLt
  apply BitVec.eq_of_toNat_eq
  rw [toNat_sum, toNat_complement, BitVec.toNat_sub]
  omega

/-- A comparison leaves the flags that a difference leaves when nothing is borrowed before it. The
overflow is not among them. -/
theorem Registers.has_apply_difference {r : Registers} (hc : r.status.has .carry = true) (b : Byte)
    (s : Status) {f : Flag} (hf : f ∈ [Flag.negative, .zero, .carry]) :
    (s.apply (.difference r.a b)).has f = (r.subtractWithBorrow b).status.has f := by
  have ha := r.a.isLt
  have hb := b.isLt
  have hone : r.status.carry = 1 := congrArg Bool.toNat hc
  rw [subtractWithBorrow, addWithCarry, apply, Status.has_apply, Status.has_apply, hone,
    ofNat_add_complement]
  cases f with
  | negative | zero => rfl
  | carry =>
    change b.ule r.a = decide (255 < r.a.toNat + (~~~b).toNat + 1)
    rw [BitVec.ule_eq_decide, toNat_complement, decide_eq_decide]
    omega
  | irqDisable | decimal | overflow => exact absurd hf (by decide)

theorem ReadOp.apply_of_compared {op : ReadOp} {r : Registers} {v : Byte}
    (h : op.compared? r = some v) (b : Byte) : op.apply b r = r.apply (.difference v b) := by
  cases op with
  | cmp | cpx | cpy =>
    obtain rfl := Option.some.inj h
    rfl
  | lda | ldx | ldy | adc | sbc | and | ora | eor | bit => cases h

theorem ReadOp.owned_of_compared {op : ReadOp} {r : Registers} {v : Byte}
    (h : op.compared? r = some v) : op.owned = ⟨[], [.negative, .zero, .carry]⟩ := by
  cases op with
  | cmp | cpx | cpy => rfl
  | lda | ldx | ldy | adc | sbc | and | ora | eor | bit => cases h

namespace Machine

variable {config : Config} {m : Machine} {op : ReadOp} {source : Source} {e : Encoding} {v : Byte}

/-- A step at a comparison changes the flags of a difference and goes on to the next instruction. -/
theorem machine_step_of_compared (hn : m.next? = some e) (hi : e.instruction = .read op source)
    (hv : op.compared? m.registers = some v) :
    (step config m).machine =
      (m.past (.read op source)).apply (.difference v (source.byte m config.order)) := by
  have hpast : op.compared? (m.past (.read op source)).registers = some v := by
    rw [← hv]
    cases op <;> rfl
  rw [machine_step_of_next? hn, hi]
  exact congrArg (Machine.mk · m.memory) (ReadOp.apply_of_compared hpast _)

/-- A step at a comparison changes no register but the status, and of that only the flags that it
shares with a difference. -/
theorem frame_step_of_compared (config : Config) (hn : m.next? = some e)
    (hi : e.instruction = .read op source) (hv : op.compared? m.registers = some v) :
    Ownership.Frame ⟨[], [.negative, .zero, .carry]⟩ m.registers (step config m).machine.registers ∧
      (step config m).machine.memory = m.memory := by
  constructor
  · have howned : m.owned = ⟨[], [.negative, .zero, .carry]⟩ := by
      rw [owned, hn, ← ReadOp.owned_of_compared hv]
      simp only [hi, Instruction.owned]
    rw [← howned]
    exact frame_step config m
  · rw [machine_step_of_compared hn hi hv]
    rfl

/-- A comparison leaves the flags that a difference leaves when nothing is borrowed before it,
wherever the two bytes come from. -/
theorem has_step_of_compared (hn : m.next? = some e) (hi : e.instruction = .read op source)
    (hv : op.compared? m.registers = some v) {config' : Config} {m' : Machine} {e' : Encoding}
    {source' : Source} (hn' : m'.next? = some e') (hi' : e'.instruction = .read .sbc source')
    (ha : m'.registers.a = v) (hb : source'.byte m' config'.order = source.byte m config.order)
    (hc : m'.registers.status.has .carry = true) {f : Flag}
    (hf : f ∈ [Flag.negative, .zero, .carry]) :
    (step config m).machine.registers.status.has f =
      (step config' m').machine.registers.status.has f := by
  rw [machine_step_of_compared hn hi hv, machine_step_of_next? hn', hi', ← ha, ← hb]
  exact Registers.has_apply_difference (r := (m'.past (.read .sbc source')).registers) hc _ _ hf

end Machine

/-! ## Any number of bytes -/

section

variable {config : Config} {m next last : Machine} {a b q r : Byte} {as bs : List Byte}

/-- A comparison of two bytes leaves the flags of their difference. -/
theorem Digit.has_eq_of_difference (h : Digit config .cmp m a b q next) {config' : Config}
    {m' next' : Machine} (h' : Digit config' .sbc m' a b r next')
    (hc : m'.registers.status.has .carry = true) {f : Flag}
    (hf : f ∈ [Flag.negative, .zero, .carry]) :
    next.registers.status.has f = next'.registers.status.has f := by
  obtain ⟨e, source, hread, hi, rfl⟩ := h.reads
  obtain ⟨e', source', hread', hi', hbyte⟩ := h'.reads
  have hcompared : ReadOp.cmp.compared? m.registers = some a := congrArg some h.accumulator
  rw [← h.step, ← h'.step]
  exact Machine.has_step_of_compared hread hi hcompared hread' hi' h'.accumulator hbyte hc hf

/-- A load leaves the carry as it is. -/
theorem Digit.carry_of_load (h : Digit config .lda m a b r next) :
    next.registers.status.carry = m.registers.status.carry := by
  obtain ⟨e, source, hn, hi, -⟩ := h.reads
  rw [← h.step, Machine.machine_step_of_next? hn, hi]
  exact congrArg Bool.toNat (Status.has_apply _ _ .carry)

/-- Bytes that are loaded and subtracted from make up a chain. -/
theorem LoadedDifference.exists_chain (h : LoadedDifference config m as bs last) :
    ∃ rs, Chain config .sbc m as bs rs last := by
  induction h with
  | nil m => exact ⟨[], .nil m⟩
  | cons carry load digit rest ih =>
    obtain ⟨rs, hrs⟩ := ih
    exact ⟨_, .cons (load.carry_of_load.trans carry) digit hrs⟩

/-- A comparison of more than one byte ends as a difference does before which nothing is
borrowed. -/
theorem Comparison.exists_chain (h : Comparison config m as bs last) (hn : 2 ≤ as.length) :
    ∃ m' rs, m'.registers.status.carry = 1 ∧ Chain config .sbc m' as bs rs last := by
  cases h with
  | @intro next _ a b _ as bs lowest higher =>
    have hdecode : decode 0xE9 = some ⟨0xE9, .read .sbc .immediate, 2⟩ := by decide
    obtain ⟨rs, hrest⟩ := higher.exists_chain
    -- a difference of the two lowest bytes stands in for their comparison
    let start : Machine := ⟨{ m.registers with status := ⟨0x01⟩ }, m.memory⟩
    have hset : start.registers.status.has .carry = true := by
      change Status.has ⟨0x01⟩ .carry = true
      decide
    have hdigit := Digit.of_immediate hdecode config start a b
    have hstart : (start.given 0xE9 a b).registers.status.carry =
        start.registers.status.carry := rfl
    have hcarry := lowest.has_eq_of_difference hdigit hset (f := .carry) (by decide)
    have hne : as ≠ [] := by
      rintro rfl
      simp at hn
    exact ⟨start, _, congrArg Bool.toNat hset,
      .cons hstart hdigit (hrest.of_carry_eq hne (congrArg Bool.toNat hcarry))⟩

/-- After a difference before which nothing is borrowed, the carry tells the order of two unsigned
numbers, and the sign, corrected by the overflow, that of two numbers in two's complement. -/
theorem Chain.order {rs : List Byte} (h : Chain config .sbc m as bs rs last) (hn : 0 < as.length)
    (hc : m.registers.status.carry = 1) :
    last.registers.status.has .carry = decide (number bs ≤ number as) ∧
      (last.registers.status.has .negative ^^ last.registers.status.has .overflow) =
        decide (signedNumber as < signedNumber bs) := by
  obtain ⟨hbs, hrs⟩ := h.length_eq
  have hcarry := last.registers.status.carry_le_one
  have hne : bs ≠ [] := List.length_pos_iff.mp (hbs ▸ hn)
  have hnumber := h.number_subtract
  obtain ⟨hoverflow, r, hr, hnegative, -⟩ := h.flags (.inr rfl) hn
  rw [hc] at hnumber hoverflow
  constructor
  · have hlt := number_lt rs
    rw [hrs] at hlt
    rw [Status.has_carry_eq_decide, decide_eq_decide]
    generalize 256 ^ as.length = size at hnumber hlt
    obtain h | h := Nat.le_one_iff_eq_zero_or_eq_one.mp hcarry <;> rw [h] at hnumber ⊢ <;> omega
  · have hdifference : signedNumber as + signedNumber (bs.map ReadOp.sbc.addend) + (1 : Nat) =
        signedNumber as - signedNumber bs := by
      rw [ReadOp.map_addend_sbc, signedNumber_complement hne]
      omega
    rw [hnegative, hoverflow, msb_eq_decide_signedNumber_neg hr, hdifference]
    exact signedNumber_neg_xor_overflows hn hbs hrs hcarry (by omega)

end

/-! ## Comparisons there are -/

/-- A load and a difference can be executed on any two bytes. -/
theorem LoadedDifference.exists_digits (config : Config) (m : Machine) (a b : Byte) :
    ∃ ready old loaded next r, ready.registers.status = m.registers.status ∧
      Digit config .lda ready old a a loaded ∧ Digit config .sbc loaded a b r next := by
  have hlda : decode 0xA9 = some ⟨0xA9, .read .lda .immediate, 2⟩ := by decide
  have hsbc : decode 0xE9 = some ⟨0xE9, .read .sbc .immediate, 2⟩ := by decide
  let ready := m.entering m.registers.pc [0xA9, a, 0xE9, b]
  have hbyte (i : Nat) (hi : i < 4) :
      ready.memory.read (m.registers.pc + .ofNat 16 i) = [0xA9, a, 0xE9, b][i] :=
    m.memory.read_load_of_lt m.registers.pc (by simp [Memory.size]) hi
  have hlast : ready.memory.read (m.registers.pc + 2 + 1) = b := by
    rw [BitVec.add_assoc]
    exact hbyte 3 (by decide)
  have hload : ready.next? = some ⟨0xA9, .read .lda .immediate, 2⟩ :=
    (m.next?_entering _ _ (by simp [Memory.size])).trans hlda
  have hloaded := Machine.machine_step_of_next? hload config
  have hdigit : (Machine.step config ready).machine.next? =
      some ⟨0xE9, .read .sbc .immediate, 2⟩ := by
    rw [hloaded]
    exact (congrArg decode (hbyte 2 (by decide))).trans hsbc
  have ha : (Machine.step config ready).machine.registers.a = a := by
    rw [hloaded]
    exact hbyte 1 (by decide)
  have hb : Source.immediate.byte (Machine.step config ready).machine config.order = b := by
    rw [hloaded]
    exact hlast
  exact ⟨ready, _, _, _, _, rfl,
    ⟨⟨_, .immediate, hload, rfl, hbyte 1 (by decide)⟩, rfl, rfl, ha⟩,
    ⟨⟨_, .immediate, hdigit, rfl, hb⟩, ha, rfl, rfl⟩⟩

theorem LoadedDifference.exists_of_length_eq (config : Config) (m : Machine) {as bs : List Byte}
    (hl : as.length = bs.length) : ∃ last, LoadedDifference config m as bs last := by
  induction as generalizing m bs with
  | nil =>
    obtain rfl := List.eq_nil_of_length_eq_zero hl.symm
    exact ⟨m, .nil m⟩
  | cons a as ih =>
    cases bs with
    | nil => cases hl
    | cons b bs =>
      obtain ⟨ready, old, loaded, next, r, hstatus, hload, hdigit⟩ :=
        LoadedDifference.exists_digits config m a b
      obtain ⟨last, hrest⟩ := ih next (Nat.succ.inj hl)
      exact ⟨last, .cons (congrArg Status.carry hstatus) hload hdigit hrest⟩

namespace Comparison

/-- Two numbers with as many bytes as each other can be compared, whatever the status is before. -/
theorem exists_of_length_eq (config : Config) (s : Status) {as bs : List Byte}
    (hl : as.length = bs.length) (hn : 0 < as.length) :
    ∃ m last, m.registers.status = s ∧ Comparison config m as bs last := by
  cases as with
  | nil => cases hn
  | cons a as =>
    cases bs with
    | nil => cases hl
    | cons b bs =>
      have hdecode : decode 0xC9 = some ⟨0xC9, .read .cmp .immediate, 2⟩ := by decide
      let start : Machine := ⟨{ Registers.powerOn with status := s }, .blank⟩
      have hdigit := Digit.of_immediate hdecode config start a b
      obtain ⟨last, hrest⟩ := LoadedDifference.exists_of_length_eq config
        (Machine.step config (start.given 0xC9 a b)).machine (Nat.succ.inj hl)
      exact ⟨_, last, rfl, .intro hdigit hrest⟩

/-- What the flags of a comparison tell. A comparison of two bytes changes no register but the
status, and leaves there the negative, the zero and the carry flag of the difference of the two with
the carry set, and every other flag as it was. Any two numbers with as many bytes as each other can
be compared from any status on. If they have more than one, the carry tells afterwards that the
first is no less than the second, and the negative flag, corrected by the overflow, that it is less
in two's complement. -/
theorem order_of_any_width (config : Config) :
    (∀ (m : Machine) (e : Encoding) (op : ReadOp) (source : Source) (v : Byte),
      m.next? = some e → e.instruction = .read op source → op.compared? m.registers = some v →
      let after := (Machine.step config m).machine
      (∃ cycles, (Machine.step config m).result = .ok cycles) ∧
      Ownership.Frame ⟨[], [.negative, .zero, .carry]⟩ m.registers after.registers ∧
      after.memory = m.memory ∧
      ∀ (config' : Config) (m' : Machine) (e' : Encoding) (source' : Source),
        m'.next? = some e' → e'.instruction = .read .sbc source' → m'.registers.a = v →
        source'.byte m' config'.order = source.byte m config.order →
        m'.registers.status.has .carry = true →
        ∀ f ∈ [Flag.negative, .zero, .carry], after.registers.status.has f =
          (Machine.step config' m').machine.registers.status.has f) ∧
    (∀ (s : Status) (as bs : List Byte), as.length = bs.length → 0 < as.length →
      ∃ m last, m.registers.status = s ∧ Comparison config m as bs last) ∧
    ∀ (m last : Machine) (as bs : List Byte), Comparison config m as bs last → 2 ≤ as.length →
      let flags := last.registers.status
      bs.length = as.length ∧ flags.has .carry = decide (number bs ≤ number as) ∧
      (flags.has .negative ^^ flags.has .overflow) =
        decide (signedNumber as < signedNumber bs) := by
  refine ⟨?bytes, fun s as bs hl hn => exists_of_length_eq config s hl hn, ?order⟩
  case bytes =>
    intro m e op source v hn hi hv after
    obtain ⟨hframe, hmemory⟩ := Machine.frame_step_of_compared config hn hi hv
    refine ⟨⟨_, congrArg Outcome.result (Machine.step_of_next? hn config)⟩, hframe, hmemory, ?_⟩
    intro config' m' e' source' hn' hi' ha hb hc f hf
    exact Machine.has_step_of_compared hn hi hv hn' hi' ha hb hc hf
  case order =>
    intro m last as bs h hn flags
    obtain ⟨m', rs, hcarry, hchain⟩ := h.exists_chain hn
    exact ⟨hchain.length_eq.1, hchain.order (by omega) hcarry⟩

/-- `$8000` and `$0001` are compared, with the carry clear and the overflow set before: the first is
the greater, and in two's complement the smaller. And `$10` in the index register is compared with
`$20` as it is subtracted from in the accumulator. -/
theorem order_of_unlike_signs :
    let m : Machine := ⟨{ Registers.powerOn with pc := 0x0200, status := ⟨0x40⟩ },
      Memory.blank.load 0x0200 [0xC9, 0x01, 0xA9, 0x80, 0xE9, 0x00]⟩
    let last := (Machine.run .standard 3 m).machine
    let index : Machine := ⟨{ Registers.powerOn with x := 0x10, pc := 0x0200 },
      Memory.blank.load 0x0200 [0xE0, 0x20]⟩
    let subtracted : Machine := ⟨{ Registers.powerOn with a := 0x10, pc := 0x0200, status := ⟨1⟩ },
      Memory.blank.load 0x0200 [0xE9, 0x20]⟩
    last.registers.status.has .carry = true ∧
      (last.registers.status.has .negative ^^ last.registers.status.has .overflow) = true ∧
      (Machine.step .standard index).machine.registers.status.has .carry =
        (Machine.step .hardware subtracted).machine.registers.status.has .carry := by
  intro m last index subtracted
  have lowest : Digit .standard .cmp m 0x00 0x01 0x00 (Machine.run .standard 1 m).machine :=
    ⟨⟨⟨0xC9, .read .cmp .immediate, 2⟩, .immediate, by decide, rfl, by decide⟩,
      rfl, (Machine.machine_run_succ .standard 0 m).symm, by decide⟩
  have load : Digit .standard .lda (Machine.run .standard 1 m).machine 0x00 0x80 0x80
      (Machine.run .standard 2 m).machine :=
    ⟨⟨⟨0xA9, .read .lda .immediate, 2⟩, .immediate, by decide, rfl, by decide⟩,
      by decide, (Machine.machine_run_succ .standard 1 m).symm, by decide⟩
  have digit : Digit .standard .sbc (Machine.run .standard 2 m).machine 0x80 0x00 0x7F last :=
    ⟨⟨⟨0xE9, .read .sbc .immediate, 2⟩, .immediate, by decide, rfl, by decide⟩,
      by decide, (Machine.machine_run_succ .standard 2 m).symm, by decide⟩
  have hcomparison : Comparison .standard m [0x00, 0x80] [0x01, 0x00] last :=
    .intro lowest (.cons rfl load digit (.nil last))
  obtain ⟨hbytes, -, horder⟩ := order_of_any_width .standard
  obtain ⟨-, hcarry, hsigns⟩ := horder m last _ _ hcomparison (by decide)
  have hindex : index.next? = some ⟨0xE0, .read .cpx .immediate, 2⟩ := by decide
  have hsubtracted : subtracted.next? = some ⟨0xE9, .read .sbc .immediate, 2⟩ := by decide
  obtain ⟨-, -, -, hagree⟩ := hbytes index _ .cpx .immediate 0x10 hindex rfl rfl
  refine ⟨hcarry.trans (by decide), hsigns.trans (by decide), ?_⟩
  exact hagree .hardware subtracted _ .immediate hsubtracted rfl rfl (by decide)
    (by decide) .carry (by decide)

end Comparison

end M6502
