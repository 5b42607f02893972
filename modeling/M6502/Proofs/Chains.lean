import M6502.Proofs.Loading
import M6502.Proofs.Numerals
import M6502.Proofs.Runs

/-!
# Sums and differences of many bytes

A number that is too wide for the accumulator is added byte by byte, from the lowest up, and only
the carry leads from one byte to the next. Between two bytes the accumulator is set anew, results
are stored, and whatever else is done must leave the carry alone. However wide the numbers are, the
bytes that are left and the last carry make up the sum, and the flags after the last byte are those
of the whole: the overflow flag tells that the sum in two's complement is out of range.

A difference is the sum with the complement of every byte, so it needs no induction of its own. A
clear carry is its borrow, and it undoes a sum.

## Main definitions

* `Digit` — an operation is executed on one byte.
* `Chain` — an operation is executed on one byte after the other.
* `Machine.given` — a way to have it executed on any two bytes.
* `Machine.entering` — a machine that is about to execute given code.

## Main statements

* `Registers.sums_addWithCarry` — what adding one byte leaves.
* `Chain.number_add`, `Chain.flags` — what a chain leaves, by induction on its bytes.
* `Chain.sum_of_any_width`, `Chain.difference_of_any_width` — the same for sums and differences.
-/

namespace M6502

/-- The byte that is added for an operand. A difference adds the complement. -/
def ReadOp.addend (op : ReadOp) (b : Byte) : Byte := if op = sbc then ~~~b else b

/-- One byte of a chain: at `m` the operation is executed with `a` in the accumulator and with the
operand `b`. It leaves `r` in the accumulator, on the machine `next`. -/
structure Digit (config : Config) (op : ReadOp) (m : Machine) (a b r : Byte) (next : Machine) :
    Prop where
  reads : ∃ e source, m.next? = some e ∧ e.instruction = .read op source ∧
    source.byte m config.order = b
  accumulator : m.registers.a = a
  step : (Machine.step config m).machine = next
  result : next.registers.a = r

/-- From the machine `m` on, the operation is executed on one byte after the other, the lowest
first. Before each of them anything may be done to the machine that leaves the carry as it is. -/
inductive Chain (config : Config) (op : ReadOp) :
    Machine → List Byte → List Byte → List Byte → Machine → Prop where
  | nil (m : Machine) : Chain config op m [] [] [] m
  | cons {m ready next last : Machine} {a b r : Byte} {as bs rs : List Byte}
      (carry : ready.registers.status.carry = m.registers.status.carry)
      (digit : Digit config op ready a b r next) (rest : Chain config op next as bs rs last) :
      Chain config op m (a :: as) (b :: bs) (r :: rs) last

/-- What comes of adding a byte: the byte that is left and the carry are the sum, and the flags are
those of the sum and of the byte that is left. -/
structure Registers.Sums (before : Registers) (v : Byte) (after : Registers) : Prop where
  value : after.a.toNat + 256 * after.status.carry =
    before.a.toNat + v.toNat + before.status.carry
  overflow : after.status.has .overflow =
    outOfRange (signed before.a.toNat + signed v.toNat + before.status.carry)
  negative : after.status.has .negative = after.a.msb
  zero : after.status.has .zero = (after.a == 0)

/-! ## One byte -/

theorem Status.carry_le_one (s : Status) : s.carry ≤ 1 := Bool.toNat_le _

theorem Status.has_carry_eq_decide (s : Status) : s.has .carry = decide (s.carry = 1) := by
  unfold carry
  cases s.has .carry <;> rfl

/-- Adding a byte with the carry leaves the sum. -/
theorem Registers.sums_addWithCarry (r : Registers) (v : Byte) : r.Sums v (r.addWithCarry v) where
  value := by
    have ha := r.a.isLt
    have hv := v.isLt
    have hc := r.status.carry_le_one
    have hcarry : (r.addWithCarry v).status.carry =
        (decide (255 < r.a.toNat + v.toNat + r.status.carry)).toNat :=
      congrArg Bool.toNat (Status.has_apply _ _ .carry)
    have hvalue : (r.addWithCarry v).a.toNat = (r.a.toNat + v.toNat + r.status.carry) % 256 :=
      toNat_sum r.a v r.status.carry
    rw [hcarry, hvalue]
    by_cases hwide : 255 < r.a.toNat + v.toNat + r.status.carry
    · rw [decide_eq_true hwide, Bool.toNat_true]
      omega
    · rw [decide_eq_false hwide, Bool.toNat_false]
      omega
  overflow := (Status.has_apply _ _ .overflow).trans
    (overflow_eq r.status.carry_le_one (toNat_sum r.a v r.status.carry))
  negative := Status.has_apply _ _ .negative
  zero := Status.has_apply _ _ .zero

theorem ReadOp.apply_eq_addWithCarry {op : ReadOp} (h : op = adc ∨ op = sbc) (b : Byte)
    (r : Registers) : op.apply b r = r.addWithCarry (op.addend b) := by
  rcases h with rfl | rfl <;> rfl

theorem ReadOp.map_addend_adc (bs : List Byte) : bs.map adc.addend = bs := List.map_id' bs

theorem ReadOp.map_addend_sbc (bs : List Byte) : bs.map sbc.addend = bs.map (~~~·) := rfl

section

variable {config : Config} {op : ReadOp} {m next last : Machine} {a b r : Byte}
  {as bs rs : List Byte}

/-- One byte of a chain leaves the sum of the accumulator, the addend and the carry. -/
theorem Digit.sums (h : Digit config op m a b r next) (hop : op = .adc ∨ op = .sbc) :
    m.registers.Sums (op.addend b) next.registers := by
  obtain ⟨e, source, hn, hi, rfl⟩ := h.reads
  have hnext : next.registers = (m.past e.instruction).registers.addWithCarry
      (op.addend (source.byte m config.order)) := by
    rw [← h.step, Machine.machine_step_of_next? hn, hi, ← op.apply_eq_addWithCarry hop]
    rfl
  have hsums := (m.past e.instruction).registers.sums_addWithCarry
    (op.addend (source.byte m config.order))
  rw [← hnext] at hsums
  exact ⟨hsums.value, hsums.overflow, hsums.negative, hsums.zero⟩

/-! ## Any number of bytes -/

namespace Chain

theorem length_eq (h : Chain config op m as bs rs last) :
    bs.length = as.length ∧ rs.length = as.length := by
  induction h with
  | nil m => exact ⟨rfl, rfl⟩
  | cons carry digit rest ih => exact ⟨congrArg Nat.succ ih.1, congrArg Nat.succ ih.2⟩

/-- The bytes that are left and the last carry make up the sum, however many bytes there are. -/
theorem number_add (h : Chain config op m as bs rs last) (hop : op = .adc ∨ op = .sbc) :
    number rs + 256 ^ as.length * last.registers.status.carry =
      number as + number (bs.map op.addend) + m.registers.status.carry := by
  induction h with
  | nil m => simp
  | @cons m ready next last a b r as bs rs carry digit rest ih =>
    have hdigit := (digit.sums hop).value
    rw [digit.accumulator, digit.result, carry] at hdigit
    rw [List.map_cons, number_cons, number_cons, number_cons, List.length_cons, pow_succ',
      Nat.mul_assoc]
    omega

/-- The flags after the last byte. Of all bytes only the last one says anything about the sign. -/
theorem flags (h : Chain config op m as bs rs last) (hop : op = .adc ∨ op = .sbc)
    (hne : 0 < as.length) :
    last.registers.status.has .overflow = overflows as.length
      (signedNumber as + signedNumber (bs.map op.addend) + m.registers.status.carry) ∧
    ∃ r, rs.getLast? = some r ∧ last.registers.status.has .negative = r.msb ∧
      last.registers.status.has .zero = (r == 0) := by
  induction h with
  | nil m => cases hne
  | @cons m ready next last a b r as bs rs carry digit rest ih =>
    have hdigit := digit.sums hop
    obtain ⟨hvalue, hoverflow, hnegative, hzero⟩ := hdigit
    rw [digit.accumulator, carry] at hvalue hoverflow
    rw [digit.result] at hvalue hnegative hzero
    cases rest with
    | nil _ =>
      refine ⟨?_, r, rfl, hnegative, hzero⟩
      rw [hoverflow, List.map_singleton, signedNumber_singleton, signedNumber_singleton]
      exact (overflows_one _).symm
    | @cons _ _ _ _ a' b' r' as bs rs carry' digit' rest' =>
      obtain ⟨hrest, last', hlast, hflags⟩ := ih (Nat.succ_pos _)
      refine ⟨?_, last', hlast, hflags⟩
      have hbs : (b' :: bs).map op.addend ≠ [] := List.cons_ne_nil _ _
      -- the sum above the lowest byte takes the carry out of that byte in
      have hsum : signedNumber (a :: a' :: as) +
          signedNumber ((b :: b' :: bs).map op.addend) + m.registers.status.carry =
          r.toNat + 256 * (signedNumber (a' :: as) + signedNumber ((b' :: bs).map op.addend) +
            next.registers.status.carry) := by
        rw [List.map_cons, signedNumber_cons a (List.cons_ne_nil a' as),
          signedNumber_cons (op.addend b) hbs]
        omega
      rw [hrest, hsum]
      exact (overflows_cons (Nat.succ_pos _) r _).symm

/-- Only the carry leads into a chain. -/
theorem of_carry_eq {m' : Machine} (h : Chain config op m as bs rs last) (hne : as ≠ [])
    (hcarry : m.registers.status.carry = m'.registers.status.carry) :
    Chain config op m' as bs rs last := by
  cases h with
  | nil m => exact absurd rfl hne
  | cons carry digit rest => exact .cons (carry.trans hcarry) digit rest

/-- A difference of bytes: what the bytes that are left, the last carry and what was subtracted make
up. -/
theorem number_subtract (h : Chain config .sbc m as bs rs last) :
    number rs + number bs + 1 + 256 ^ as.length * last.registers.status.carry =
      number as + 256 ^ as.length + m.registers.status.carry := by
  have hsum := h.number_add (.inr rfl)
  have hcomplement := number_complement bs
  rw [ReadOp.map_addend_sbc] at hsum
  rw [h.length_eq.1] at hcomplement
  omega

/-- A difference undoes a sum. Its first carry is to be the complement of that of the sum, and its
last carry then is that too. -/
theorem eq_of_difference_of_sum {config' : Config} {m' last' : Machine} {qs : List Byte}
    (h : Chain config .adc m as bs rs last) (h' : Chain config' .sbc m' rs bs qs last')
    (hcarry : m'.registers.status.carry = 1 - m.registers.status.carry) :
    qs = as ∧ last'.registers.status.carry = 1 - last.registers.status.carry := by
  have hlength := h.length_eq.2
  have hqs : qs.length = as.length := h'.length_eq.2.trans hlength
  have hsum : number rs + 256 ^ as.length * last.registers.status.carry =
      number as + number bs + m.registers.status.carry := by
    simpa only [ReadOp.map_addend_adc] using h.number_add (.inl rfl)
  have hdifference := h'.number_subtract
  have hq := number_lt qs
  have ha := number_lt as
  have hc := m.registers.status.carry_le_one
  rw [hlength, hcarry] at hdifference
  rw [hqs] at hq
  -- both numbers have as many bytes, so the two carries cannot be the same
  generalize 256 ^ as.length = size at hsum hdifference hq ha
  have hlast := Nat.le_one_iff_eq_zero_or_eq_one.mp last.registers.status.carry_le_one
  have hlast' := Nat.le_one_iff_eq_zero_or_eq_one.mp last'.registers.status.carry_le_one
  have hnumber : number qs = number as ∧
      last'.registers.status.carry = 1 - last.registers.status.carry := by
    rcases hlast with hlast | hlast <;> rcases hlast' with hlast' | hlast' <;>
      rw [hlast] at hsum ⊢ <;> rw [hlast'] at hdifference ⊢ <;> omega
  exact ⟨number_inj hqs hnumber.1, hnumber.2⟩

end Chain

end

/-! ## Chains there are -/

namespace Machine

/-- A machine with `a` in the accumulator, and with an opcode and its operand byte `b` next in the
instruction stream. -/
def given (m : Machine) (opcode a b : Byte) : Machine where
  registers := { m.registers with a := a }
  memory := (m.memory.write m.registers.pc opcode).write (m.registers.pc + 1) b

theorem next?_given (m : Machine) (opcode a b : Byte) :
    (m.given opcode a b).next? = decode opcode := by
  have hne : m.registers.pc + 1 ≠ m.registers.pc := by bv_omega
  have hopcode : (m.given opcode a b).opcode = opcode := by
    change Memory.read (Memory.write _ (m.registers.pc + 1) b) m.registers.pc = opcode
    rw [Memory.read_write_of_ne _ _ hne, Memory.read_write_self]
  rw [next?, hopcode]

/-- A machine with bytes in the instruction stream from an address on, about to execute them. -/
def entering (m : Machine) (start : Word) (code : List Byte) : Machine where
  registers := { m.registers with pc := start }
  memory := m.memory.load start code

theorem next?_entering (m : Machine) (start : Word) (opcode : Byte) {code : List Byte}
    (h : code.length < Memory.size) :
    (m.entering start (opcode :: code)).next? = decode opcode := by
  have hlength : (opcode :: code).length ≤ Memory.size := h
  have hopcode := m.memory.read_load_of_lt start hlength (Nat.succ_pos code.length)
  rw [BitVec.add_zero] at hopcode
  exact congrArg decode hopcode

end Machine

/-- An operation that an opcode gives an immediate operand can be executed on any two bytes. -/
theorem Digit.of_immediate {op : ReadOp} {opcode : Byte} {cycles : Nat}
    (h : decode opcode = some ⟨opcode, .read op .immediate, cycles⟩) (config : Config) (m : Machine)
    (a b : Byte) :
    let next := (Machine.step config (m.given opcode a b)).machine
    Digit config op (m.given opcode a b) a b next.registers.a next := by
  have hbyte : Source.immediate.byte (m.given opcode a b) config.order = b :=
    Memory.read_write_self _ _ _
  exact ⟨⟨_, .immediate, (m.next?_given opcode a b).trans h, rfl, hbyte⟩, rfl, rfl, rfl⟩

namespace Chain

/-- An operation that an opcode gives an immediate operand can be executed on any bytes. -/
theorem exists_of_immediate {op : ReadOp} {opcode : Byte} {cycles : Nat}
    (h : decode opcode = some ⟨opcode, .read op .immediate, cycles⟩) (config : Config) (m : Machine)
    {as bs : List Byte} (hl : as.length = bs.length) :
    ∃ rs last, Chain config op m as bs rs last := by
  induction as generalizing m bs with
  | nil =>
    obtain rfl := List.eq_nil_of_length_eq_zero hl.symm
    exact ⟨[], m, .nil m⟩
  | cons a as ih =>
    cases bs with
    | nil => cases hl
    | cons b bs =>
      obtain ⟨rs, last, hrest⟩ :=
        ih (Machine.step config (m.given opcode a b)).machine (Nat.succ.inj hl)
      have hcarry : (m.given opcode a b).registers.status.carry = m.registers.status.carry := rfl
      exact ⟨_, last, .cons hcarry (.of_immediate h config m a b) hrest⟩

/-! ## Sums and differences -/

/-- A sum of any width. Whatever bytes two numbers have, and whatever the decimal flag says, they
can be added in a chain. The bytes that a chain leaves and its last carry make up the sum of the two
numbers and the first carry. The overflow flag tells that the sum in two's complement is out of
range, and the negative and the zero flag tell of the last byte. -/
theorem sum_of_any_width (config : Config) :
    (∀ (m : Machine) (as bs : List Byte), as.length = bs.length →
      ∃ rs last, Chain config .adc m as bs rs last) ∧
    ∀ (m last : Machine) (as bs rs : List Byte), Chain config .adc m as bs rs last →
      let n := as.length
      let c := m.registers.status.carry
      let flags := last.registers.status
      (bs.length = n ∧ rs.length = n) ∧
      number rs + 256 ^ n * flags.carry = number as + number bs + c ∧
      (0 < n →
        flags.has .overflow = overflows n (signedNumber as + signedNumber bs + c) ∧
        ∃ r, rs.getLast? = some r ∧ flags.has .negative = r.msb ∧ flags.has .zero = (r == 0)) := by
  have hdecode : decode 0x69 = some ⟨0x69, .read .adc .immediate, 2⟩ := by decide +kernel
  refine ⟨fun m as bs hl => exists_of_immediate hdecode config m hl, fun m last as bs rs h => ?_⟩
  have hsum := h.number_add (.inl rfl)
  have hflags := h.flags (.inl rfl)
  rw [ReadOp.map_addend_adc] at hsum hflags
  exact ⟨h.length_eq, hsum, hflags⟩

/-- `$7FFF` and `$0001` with the decimal flag set, and a store and a load between the two bytes: the
carry survives them, and the sum overflows. -/
theorem sum_past_largest_word :
    let m : Machine := ⟨{ Registers.powerOn with pc := 0x0200, status := ⟨0x08⟩ },
      Memory.blank.load 0x0200 [0xA9, 0xFF, 0x69, 0x01, 0x85, 0x10, 0xA9, 0x7F, 0x69, 0x00]⟩
    let last := (Machine.run .standard 5 m).machine
    last.registers.status.has .overflow = true ∧ last.registers.status.has .negative = true ∧
      number [0x00, 0x80] + 256 ^ 2 * last.registers.status.carry = 0x8000 := by
  intro m last
  have low : Digit .standard .adc (Machine.run .standard 1 m).machine 0xFF 0x01 0x00
      (Machine.run .standard 2 m).machine :=
    ⟨⟨⟨0x69, .read .adc .immediate, 2⟩, .immediate, by decide +kernel, rfl, by decide +kernel⟩,
      by decide +kernel, (Machine.machine_run_succ .standard 1 m).symm, by decide +kernel⟩
  have high : Digit .standard .adc (Machine.run .standard 4 m).machine 0x7F 0x00 0x80 last :=
    ⟨⟨⟨0x69, .read .adc .immediate, 2⟩, .immediate, by decide +kernel, rfl, by decide +kernel⟩,
      by decide +kernel, (Machine.machine_run_succ .standard 4 m).symm, by decide +kernel⟩
  have hchain : Chain .standard .adc m [0xFF, 0x7F] [0x01, 0x00] [0x00, 0x80] last :=
    .cons (by decide +kernel) low (.cons (by decide +kernel) high (.nil last))
  obtain ⟨-, hsum⟩ := sum_of_any_width .standard
  obtain ⟨-, hnumber, hflags⟩ := hsum m last _ _ _ hchain
  obtain ⟨hoverflow, r, hlast, hnegative, -⟩ := hflags (by decide)
  obtain rfl := Option.some.inj hlast
  exact ⟨hoverflow.trans (by decide +kernel), hnegative, hnumber.trans (by decide +kernel)⟩

/-- A difference of any width, where a clear carry is a borrow. The bytes that a chain leaves are
the difference of the two numbers and the first borrow, which wraps if there is a last one. The
overflow flag tells that the difference in two's complement is out of range. And a difference undoes
a sum: what was added is subtracted again, with the complement of the carry. -/
theorem difference_of_any_width (config : Config) :
    (∀ (m : Machine) (as bs : List Byte), as.length = bs.length →
      ∃ rs last, Chain config .sbc m as bs rs last) ∧
    (∀ (m last : Machine) (as bs rs : List Byte), Chain config .sbc m as bs rs last →
      let n := as.length
      let c := m.registers.status.carry
      let flags := last.registers.status
      (bs.length = n ∧ rs.length = n) ∧
      (number rs : Int) = number as - number bs - (1 - c) + 256 ^ n * (1 - flags.carry) ∧
      (0 < n →
        flags.has .overflow = overflows n (signedNumber as - signedNumber bs - (1 - c)))) ∧
    ∀ (config' : Config) (m last m' last' : Machine) (as bs rs qs : List Byte),
      Chain config' .adc m as bs rs last → Chain config .sbc m' rs bs qs last' →
      m'.registers.status.carry = 1 - m.registers.status.carry →
        qs = as ∧ last'.registers.status.carry = 1 - last.registers.status.carry := by
  have hdecode : decode 0xE9 = some ⟨0xE9, .read .sbc .immediate, 2⟩ := by decide +kernel
  refine ⟨fun m as bs hl => exists_of_immediate hdecode config m hl, fun m last as bs rs h => ?_,
    fun config' m last m' last' as bs rs qs h h' hc => h.eq_of_difference_of_sum h' hc⟩
  intro n c flags
  refine ⟨h.length_eq, ?_, fun hn => ?_⟩
  · have hdifference : ((number rs + number bs + 1 + 256 ^ n * flags.carry : Nat) : Int) =
        (number as + 256 ^ n + c : Nat) := congrArg _ h.number_subtract
    push_cast at hdifference
    rw [Int.mul_sub, Int.mul_one]
    omega
  · have hbs : bs ≠ [] := List.length_pos_iff.mp (h.length_eq.1 ▸ hn)
    obtain ⟨hoverflow, -⟩ := h.flags (.inr rfl) hn
    rw [hoverflow, ReadOp.map_addend_sbc, signedNumber_complement hbs]
    congr 1
    omega

/-- `$01` is added to `$7F` and subtracted from the sum `$80`, the least byte, with the carry set
before: the difference overflows, and it is what there was at first. -/
theorem difference_past_least_byte :
    let m : Machine := ⟨{ Registers.powerOn with a := 0x7F, pc := 0x0200 },
      Memory.blank.load 0x0200 [0x69, 0x01, 0x38, 0xE9, 0x01]⟩
    let last := (Machine.run .standard 3 m).machine
    last.registers.status.has .overflow = true ∧
      (number [0x7F] : Int) =
        number [0x80] - number [0x01] + 256 * (1 - last.registers.status.carry) ∧
      last.registers.a = 0x7F ∧ last.registers.status.carry = 1 := by
  intro m last
  have added : Digit .standard .adc m 0x7F 0x01 0x80 (Machine.run .standard 1 m).machine :=
    ⟨⟨⟨0x69, .read .adc .immediate, 2⟩, .immediate, by decide +kernel, rfl, by decide +kernel⟩,
      rfl, (Machine.machine_run_succ .standard 0 m).symm, by decide +kernel⟩
  have subtracted : Digit .standard .sbc (Machine.run .standard 2 m).machine 0x80 0x01
      last.registers.a last :=
    ⟨⟨⟨0xE9, .read .sbc .immediate, 2⟩, .immediate, by decide +kernel, rfl, by decide +kernel⟩,
      by decide +kernel, (Machine.machine_run_succ .standard 2 m).symm, rfl⟩
  have hsum := Chain.cons (m := m) rfl added (.nil _)
  have hdifference := Chain.cons (m := (Machine.run .standard 2 m).machine) rfl subtracted (.nil _)
  obtain ⟨-, hdifferences, hundoes⟩ := difference_of_any_width .standard
  obtain ⟨hbytes, hlast⟩ :=
    hundoes .standard _ _ _ _ _ _ _ _ hsum hdifference (by decide +kernel)
  obtain ⟨-, hnumber, hoverflow⟩ := hdifferences _ _ _ _ _ hdifference
  have ha : last.registers.a = 0x7F := List.head_eq_of_cons_eq hbytes
  rw [ha] at hnumber
  refine ⟨(hoverflow (by decide)).trans (by decide +kernel), hnumber.trans ?_, ha,
    hlast.trans (by decide +kernel)⟩
  have hcarry : (Machine.run .standard 2 m).machine.registers.status.carry = 1 := by
    decide +kernel
  rw [hcarry]
  rfl

end Chain

end M6502
