import M6502.Proofs.Account
import M6502.Proofs.Chains

/-!
# Rotations of many bytes

A number of many bytes is rotated byte by byte: to the left from the lowest byte up, to the right
from the highest down. Each byte takes the carry in at one end and leaves at the other the bit that
the next byte takes, so that the whole is rotated through the carry as one byte is. The bytes may
stand in cells of their own, or pass through the accumulator.

A rotation to the right has the same equation as one to the left, read backwards. So each undoes the
other. With the carry above it a number goes round a ring of one bit more than it has itself, and as
many rotations to the left as that bring it back.

## Main definitions

* `Turn`, `Turns` — an operation is executed on one byte, and on one after the other.
* `Shifting` — a number is shifted or rotated in cells or through the accumulator.
* `Rounds` — a number is rotated to the left again and again.

## Main statements

* `Turns.doubling_of_left`, `Turns.doubling_of_right` — what a number becomes, by induction on its
  bytes.
* `Rounds.wide_modEq` — rounds multiply by a power of two, modulo the length of the ring.
* `Shifting.rotation_of_any_width` — shifts and rotations of any width.
-/

namespace M6502

/-- The bit that an operation moves into a byte. Only a rotation moves the carry in. -/
def ModifyOp.bitIn (op : ModifyOp) (carry : Nat) : Nat :=
  match op with
  | rol | ror => carry
  | asl | lsr | inc | dec => 0

/-- An operation is executed once, on the byte `b` at the place `p`. It leaves `r` there, on the
machine `next`. -/
structure Turn (config : Config) (op : ModifyOp) (m : Machine) (p : Place) (b r : Byte)
    (next : Machine) : Prop where
  changes : ∃ e target, m.next? = some e ∧ e.instruction = .modify op target ∧
    target.place m config.order = p
  before : m.get p = b
  step : (Machine.step config m).machine = next
  after : next.get p = r

/-- From the machine `m` on, bytes are changed one after the other, the first of them by `op` and
every other one by `rotate`. Before each of them anything may be done to the machine that leaves the
carry and the cells `kept` as they are. -/
inductive Turns (config : Config) (rotate : ModifyOp) (kept : List Word) :
    ModifyOp → Machine → List Place → List Byte → List Byte → Machine → Prop where
  | nil (op : ModifyOp) (m : Machine) : Turns config rotate kept op m [] [] [] m
  | cons {op : ModifyOp} {m ready next last : Machine} {p : Place} {b r : Byte} {ps : List Place}
      {bs rs : List Byte} (carry : ready.registers.status.carry = m.registers.status.carry)
      (keeps : ∀ a ∈ kept, ready.memory.read a = m.memory.read a)
      (turn : Turn config op ready p b r next)
      (rest : Turns config rotate kept rotate next ps bs rs last) :
      Turns config rotate kept op m (p :: ps) (b :: bs) (r :: rs) last

/-- The bytes `bs` of a number become `rs`, in the order in which they are changed. They are in
different cells, or each of them is in the accumulator when its turn comes. -/
inductive Shifting (config : Config) (rotate op : ModifyOp) (m : Machine) :
    List Byte → List Byte → Machine → Prop where
  | inCells {cells : List Word} {bs rs : List Byte} {last : Machine} (distinct : cells.Nodup)
      (turns : Turns config rotate cells op m (cells.map .cell) bs rs last) :
      Shifting config rotate op m (cells.map m.memory.read) (cells.map last.memory.read) last
  | inAccumulator {bs rs : List Byte} {last : Machine}
      (turns : Turns config rotate [] op m (.replicate bs.length .accumulator) bs rs last) :
      Shifting config rotate op m bs rs last

/-- The bytes of a number are rotated to the left a number of times. -/
inductive Rounds (config : Config) : Nat → Machine → List Byte → List Byte → Machine → Prop where
  | zero (m : Machine) (bs : List Byte) : Rounds config 0 m bs bs m
  | succ {k : Nat} {m next last : Machine} {bs rs qs : List Byte}
      (round : Shifting config .rol .rol m bs rs next) (rest : Rounds config k next rs qs last) :
      Rounds config (k + 1) m bs qs last

/-! ## One byte -/

theorem ModifyOp.bitIn_le_one (op : ModifyOp) {carry : Nat} (h : carry ≤ 1) :
    op.bitIn carry ≤ 1 := by
  cases op with
  | rol | ror => exact h
  | asl | lsr | inc | dec => exact Nat.zero_le 1

namespace Turn

variable {config : Config} {op : ModifyOp} {m next : Machine} {p : Place} {b r : Byte}

/-- An operation is executed where it comes next in the instruction stream. -/
theorem of_next? {e : Encoding} {target : Target} (hn : m.next? = some e)
    (hi : e.instruction = .modify op target) (config : Config) :
    let p := target.place m config.order
    let next := (Machine.step config m).machine
    Turn config op m p (m.get p) (next.get p) next :=
  ⟨⟨e, target, hn, hi, rfl⟩, rfl, rfl, rfl⟩

/-- A turn changes its place as the operation does, past the instruction. -/
theorem next_eq (h : Turn config op m p b r next) :
    ∃ i, (m.past i).get p = b ∧ next = (m.past i).modify op p := by
  obtain ⟨e, target, hn, hi, rfl⟩ := h.changes
  refine ⟨e.instruction, ?_, ?_⟩
  · rw [← h.before]
    cases target.place m config.order <;> rfl
  · rw [← h.step, Machine.machine_step_of_next? hn, hi]
    rfl

/-- What a turn leaves is told by the account of its operation. -/
theorem account (h : Turn config op m p b r next) {account : Account}
    (ha : op.account ⟨0, 0, 0, 0, b.toNat, m.registers.status.carry⟩ = account) :
    account.result = some (.operand, (r.toNat : Int)) ∧
      next.registers.status.has .carry =
        (account.flag .carry).getD (m.registers.status.has .carry) := by
  subst ha
  obtain ⟨i, hold, hnext⟩ := h.next_eq
  obtain ⟨hresult, hflags⟩ := op.account_eq (c := m.registers.status.has .carry)
    (i := ⟨0, 0, 0, 0, b.toNat, m.registers.status.carry⟩) rfl rfl
  have hr : r = op.value b (m.registers.status.has .carry) := by
    rw [← h.after, hnext, Machine.modify, Machine.get_put, hold]
    rfl
  refine ⟨hr ▸ hresult, ?_⟩
  rw [← hflags, hnext, Machine.modify, Machine.status_put, hold]
  exact Status.has_apply _ _ .carry

/-- A turn changes no cell but its place. -/
theorem read_of_ne (h : Turn config op m p b r next) {a : Word} (ha : p ≠ .cell a) :
    next.memory.read a = m.memory.read a := by
  obtain ⟨instruction, -, hnext⟩ := h.next_eq
  rw [hnext, Machine.modify]
  cases p with
  | accumulator => rfl
  | cell c =>
    refine Memory.read_write_of_ne _ _ ?_
    rintro rfl
    exact ha rfl

/-- A turn to the left moves the byte up by one bit. -/
theorem left (h : Turn config op m p b r next) (hop : op = .asl ∨ op = .rol) :
    r.toNat + 256 * next.registers.status.carry =
      2 * b.toNat + op.bitIn m.registers.status.carry := by
  have haccount : op.account ⟨0, 0, 0, 0, b.toNat, m.registers.status.carry⟩ =
      .shiftLeft b.toNat (op.bitIn m.registers.status.carry) := by
    rcases hop with rfl | rfl <;> rfl
  obtain ⟨hresult, hcarry⟩ := h.account haccount
  have hr : ((2 * b.toNat + op.bitIn m.registers.status.carry : Nat) : Int) % 256 = r.toNat :=
    congrArg Prod.snd (Option.some.inj hresult)
  have hd : next.registers.status.carry = 1 ↔
      256 ≤ 2 * b.toNat + op.bitIn m.registers.status.carry := by
    rw [← decide_eq_decide, ← Status.has_carry_eq_decide]
    exact hcarry
  have hb := b.isLt
  have hbit := op.bitIn_le_one m.registers.status.carry_le_one
  have hle := next.registers.status.carry_le_one
  omega

/-- A turn to the right moves the byte down by one bit. -/
theorem right (h : Turn config op m p b r next) (hop : op = .lsr ∨ op = .ror) :
    b.toNat + 256 * op.bitIn m.registers.status.carry =
      2 * r.toNat + next.registers.status.carry := by
  have haccount : op.account ⟨0, 0, 0, 0, b.toNat, m.registers.status.carry⟩ =
      .shiftRight b.toNat (op.bitIn m.registers.status.carry) := by
    rcases hop with rfl | rfl <;> rfl
  obtain ⟨hresult, hcarry⟩ := h.account haccount
  have hr : (((256 * op.bitIn m.registers.status.carry + b.toNat) / 2 : Nat) : Int) % 256 =
      r.toNat := congrArg Prod.snd (Option.some.inj hresult)
  have hd : next.registers.status.carry = 1 ↔
      (256 * op.bitIn m.registers.status.carry + b.toNat) % 2 = 1 := by
    rw [← decide_eq_decide, ← Status.has_carry_eq_decide]
    exact hcarry
  have hb := b.isLt
  have hbit := op.bitIn_le_one m.registers.status.carry_le_one
  have hle := next.registers.status.carry_le_one
  omega

end Turn

/-! ## Any number of bytes -/

namespace Turns

variable {config : Config} {rotate op : ModifyOp} {kept cells : List Word} {m last : Machine}
  {ps : List Place} {bs rs : List Byte}

/-- A cell that is kept between the turns changes only if it has a turn itself. -/
theorem read_of_notMem (h : Turns config rotate kept op m ps bs rs last) {a : Word} (ha : a ∈ kept)
    (hp : .cell a ∉ ps) : last.memory.read a = m.memory.read a := by
  induction h with
  | nil op m => rfl
  | cons carry keeps turn rest ih =>
    obtain ⟨hfirst, hrest⟩ := List.ne_and_not_mem_of_not_mem_cons hp
    exact (ih hrest).trans ((turn.read_of_ne (Ne.symm hfirst)).trans (keeps a ha))

/-- Bytes that are in different cells are found there before, and what they become is found there
afterwards. -/
theorem bytes_of_cells (h : Turns config rotate kept op m (cells.map .cell) bs rs last)
    (hkept : cells ⊆ kept) (hcells : cells.Nodup) :
    bs = cells.map m.memory.read ∧ rs = cells.map last.memory.read := by
  induction cells generalizing op m bs rs with
  | nil =>
    cases h
    exact ⟨rfl, rfl⟩
  | cons a cells ih =>
    cases h with
    | @cons _ _ ready next _ _ b r _ bs rs carry keeps turn rest =>
      obtain ⟨ha, hcells⟩ := List.nodup_cons.mp hcells
      obtain ⟨hak, hkept⟩ := List.cons_subset.mp hkept
      obtain ⟨hbs, hrs⟩ := ih rest hkept hcells
      have hb : b = m.memory.read a := turn.before.symm.trans (keeps a hak)
      have hr : r = last.memory.read a := by
        have hlater : Place.cell a ∉ cells.map .cell := by
          simpa using ha
        rw [rest.read_of_notMem hak hlater]
        exact turn.after.symm
      -- the bytes of the other cells have not changed by the first turn
      have hothers : cells.map next.memory.read = cells.map m.memory.read := by
        refine List.map_congr_left fun c hc => ?_
        have hne : Place.cell a ≠ .cell c := by
          rintro ⟨⟩
          exact ha hc
        exact (turn.read_of_ne hne).trans (keeps c (hkept hc))
      rw [hbs, hrs, hb, hr, hothers]
      exact ⟨rfl, rfl⟩

/-- Turns to the left, from the lowest byte up, move a number up by one bit. -/
theorem doubling_of_left (h : Turns config .rol kept op m ps bs rs last)
    (hop : op = .asl ∨ op = .rol) (hne : bs = [] → op = .rol) :
    Doubling bs (op.bitIn m.registers.status.carry) rs last.registers.status.carry := by
  induction h with
  | nil op m =>
    obtain rfl := hne rfl
    exact .nil m.registers.status.carry_le_one
  | @cons op m ready next last p b r ps bs rs carry keeps turn rest ih =>
    obtain ⟨hlength, -, hhigh, hwide⟩ := ih (.inr rfl) fun _ => rfl
    have hturn := turn.left hop
    rw [carry] at hturn
    refine ⟨congrArg Nat.succ hlength, op.bitIn_le_one m.registers.status.carry_le_one, hhigh, ?_⟩
    rw [wide, ModifyOp.bitIn] at hwide
    rw [wide, number_cons, number_cons, List.length_cons, pow_succ', Nat.mul_assoc]
    omega

/-- Turns to the right, from the highest byte down, move a number down by one bit: read backwards,
they move it up. -/
theorem doubling_of_right (h : Turns config .ror kept op m ps bs rs last)
    (hop : op = .lsr ∨ op = .ror) (hne : bs = [] → op = .ror) :
    Doubling rs.reverse last.registers.status.carry bs.reverse
      (op.bitIn m.registers.status.carry) := by
  induction h with
  | nil op m =>
    obtain rfl := hne rfl
    exact .nil m.registers.status.carry_le_one
  | @cons op m ready next last p b r ps bs rs carry keeps turn rest ih =>
    obtain ⟨hlength, hlow, -, hwide⟩ := ih (.inr rfl) fun _ => rfl
    have hturn := turn.right hop
    rw [carry] at hturn
    rw [List.length_reverse, List.length_reverse] at hlength
    refine ⟨by simp [hlength], hlow, op.bitIn_le_one m.registers.status.carry_le_one, ?_⟩
    -- the first byte has its turn above all others
    have hscaled : 256 ^ bs.length * b.toNat +
        256 ^ bs.length * (256 * op.bitIn m.registers.status.carry) =
        2 * (256 ^ bs.length * r.toNat) + 256 ^ bs.length * next.registers.status.carry := by
      rw [Nat.mul_left_comm 2, ← Nat.mul_add, ← Nat.mul_add, hturn]
    rw [wide, ModifyOp.bitIn, List.length_reverse] at hwide
    simp only [wide, List.reverse_cons, number_append, number_cons, number_nil, List.length_append,
      List.length_reverse, List.length_singleton, pow_succ, Nat.mul_assoc, ← hlength, Nat.mul_zero,
      Nat.add_zero]
    omega

end Turns

/-! ## Numbers -/

namespace Shifting

variable {config : Config} {rotate op : ModifyOp} {m last : Machine} {bs rs : List Byte}

/-- Whether in cells or in the accumulator, the bytes have their turns one after the other. -/
theorem exists_turns (h : Shifting config rotate op m bs rs last) :
    ∃ kept ps, Turns config rotate kept op m ps bs rs last := by
  cases h with
  | inCells distinct turns =>
    obtain ⟨hbs, hrs⟩ := turns.bytes_of_cells (List.Subset.refl _) distinct
    rw [← hbs, ← hrs]
    exact ⟨_, _, turns⟩
  | inAccumulator turns => exact ⟨_, _, turns⟩

/-- A number that is shifted or rotated to the left moves up by one bit. -/
theorem doubling_of_left (h : Shifting config .rol op m bs rs last) (hop : op = .asl ∨ op = .rol)
    (hne : bs = [] → op = .rol) :
    Doubling bs (op.bitIn m.registers.status.carry) rs last.registers.status.carry := by
  obtain ⟨kept, ps, hturns⟩ := h.exists_turns
  exact hturns.doubling_of_left hop hne

/-- A number that is shifted or rotated to the right moves down by one bit. -/
theorem doubling_of_right (h : Shifting config .ror op m bs.reverse rs.reverse last)
    (hop : op = .lsr ∨ op = .ror) (hne : bs = [] → op = .ror) :
    Doubling rs last.registers.status.carry bs (op.bitIn m.registers.status.carry) := by
  obtain ⟨kept, ps, hturns⟩ := h.exists_turns
  simpa using hturns.doubling_of_right hop (by simpa using hne)

end Shifting

namespace Rounds

variable {config : Config} {k : Nat} {m last : Machine} {bs qs : List Byte}

theorem length_eq (h : Rounds config k m bs qs last) : qs.length = bs.length := by
  induction h with
  | zero m bs => rfl
  | succ round rest ih =>
    exact ih.trans (round.doubling_of_left (.inr rfl) fun _ => rfl).length

/-- Rounds multiply by a power of two, modulo the length of the ring. -/
theorem wide_modEq (h : Rounds config k m bs qs last) :
    wide qs last.registers.status.carry ≡
      2 ^ k * wide bs m.registers.status.carry [MOD 2 * 256 ^ bs.length - 1] := by
  induction h with
  | zero m bs => rw [pow_zero, Nat.one_mul]
  | @succ k m next last bs rs qs round rest ih =>
    have hround := round.doubling_of_left (.inr rfl) fun _ => rfl
    rw [hround.length] at ih
    rw [pow_succ, Nat.mul_assoc]
    exact ih.trans (hround.wide_modEq.mul_left (2 ^ k))

/-- Only no bits at all become no bits at all. -/
theorem wide_eq_zero_iff (h : Rounds config k m bs qs last) :
    wide qs last.registers.status.carry = 0 ↔ wide bs m.registers.status.carry = 0 := by
  induction h with
  | zero m bs => exact Iff.rfl
  | succ round rest ih =>
    exact ih.trans (round.doubling_of_left (.inr rfl) fun _ => rfl).wide_eq_zero_iff

/-- As many rounds as the bytes and the carry have bits bring all of them back. -/
theorem eq_of_full (h : Rounds config (8 * bs.length + 1) m bs qs last) :
    qs = bs ∧ last.registers.status.carry = m.registers.status.carry := by
  have hlast := last.registers.status.carry_le_one
  have hm := m.registers.status.carry_le_one
  have hq := wide_lt qs hlast
  have hb := wide_lt bs hm
  have hmod := h.wide_modEq
  have hpow : 2 ^ (8 * bs.length + 1) = 2 * 256 ^ bs.length - 1 + 1 := by
    have hsize : 0 < 256 ^ bs.length := Nat.pow_pos (by decide)
    rw [pow_succ', pow_mul]
    change 2 * 256 ^ bs.length = _
    omega
  rw [hpow] at hmod
  rw [h.length_eq] at hq
  exact wide_inj h.length_eq hlast hm
    (eq_of_modEq_succ_mul hmod (by omega) (by omega) h.wide_eq_zero_iff)

end Rounds

/-! ## Turns there are -/

/-- A byte can be changed in the accumulator by every operation that is not counting. -/
theorem Turn.exists_in_accumulator {op : ModifyOp} (hop : op ∈ [.asl, .lsr, .rol, .ror])
    (config : Config) (m : Machine) (b : Byte) :
    ∃ ready r next, ready.registers.status = m.registers.status ∧
      Turn config op ready .accumulator b r next := by
  obtain ⟨opcode, cycles, hdecode⟩ :
      ∃ opcode cycles, decode opcode = some ⟨opcode, .modify op .accumulator, cycles⟩ := by
    cases op with
    | asl => exact ⟨0x0A, 2, by decide⟩
    | lsr => exact ⟨0x4A, 2, by decide⟩
    | rol => exact ⟨0x2A, 2, by decide⟩
    | ror => exact ⟨0x6A, 2, by decide⟩
    | inc | dec => exact absurd hop (by decide)
  exact ⟨m.given opcode b 0, _, _, rfl,
    .of_next? ((m.next?_given opcode b 0).trans hdecode) rfl config⟩

theorem ByteOrder.exists_word_eq (order : ByteOrder) (a : Word) :
    ∃ first second, order.word first second = a := by
  cases order with
  | highFirst => exact ⟨a.high, a.low, a.ofBytes_high_low⟩
  | lowFirst => exact ⟨a.low, a.high, a.ofBytes_high_low⟩

/-- A byte can be changed in its cell by an instruction at any address. -/
theorem Turn.exists_in_cell (config : Config) (op : ModifyOp) (m : Machine) (a start : Word) :
    ∃ ready b r next, ready.registers.status = m.registers.status ∧
      (∀ c, (∀ i < 3, start + .ofNat 16 i ≠ c) → ready.memory.read c = m.memory.read c) ∧
      Turn config op ready (.cell a) b r next := by
  obtain ⟨opcode, cycles, hdecode⟩ :
      ∃ opcode cycles, decode opcode = some ⟨opcode, .modify op (.data .absolute), cycles⟩ := by
    cases op with
    | asl => exact ⟨0x0E, 6, by decide⟩
    | lsr => exact ⟨0x4E, 6, by decide⟩
    | rol => exact ⟨0x2E, 6, by decide⟩
    | ror => exact ⟨0x6E, 6, by decide⟩
    | inc => exact ⟨0xEE, 6, by decide⟩
    | dec => exact ⟨0xCE, 6, by decide⟩
  obtain ⟨first, second, hword⟩ := config.order.exists_word_eq a
  let ready := m.entering start [opcode, first, second]
  have hbyte (i : Nat) (hi : i < 3) :
      ready.memory.read (start + .ofNat 16 i) = [opcode, first, second][i] :=
    m.memory.read_load_of_lt start (by simp [Memory.size]) hi
  have hn : ready.next? = some ⟨opcode, .modify op (.data .absolute), cycles⟩ :=
    (m.next?_entering _ _ (by simp [Memory.size])).trans hdecode
  have hcell : ready.cell config.order .absolute = a := by
    have hfirst : ready.memory.read (start + 1) = first := hbyte 1 (by decide)
    have hsecond : ready.memory.read (start + 1 + 1) = second := by
      rw [BitVec.add_assoc]
      exact hbyte 2 (by decide)
    change config.order.word (ready.memory.read (start + 1)) (ready.memory.read (start + 1 + 1)) +
      .ofLow 0 = a
    rw [hfirst, hsecond, hword]
    exact BitVec.add_zero a
  have hturn := Turn.of_next? hn rfl config
  rw [Target.place, hcell] at hturn
  refine ⟨ready, _, _, _, rfl, fun c hc => ?_, hturn⟩
  refine Memory.read_load_of_landings_eq_empty (Set.eq_empty_of_forall_notMem ?_)
  rintro i ⟨hi, hsame⟩
  exact hc i hi (BitVec.eq_of_toNat_eq ((Memory.toNat_add_ofNat start i).trans hsame))

namespace Turns

variable {config : Config} {op rotate : ModifyOp}

/-- Any bytes can be changed in the accumulator. -/
theorem exists_in_accumulator (hop : op ∈ [.asl, .lsr, .rol, .ror])
    (hrotate : rotate ∈ [.asl, .lsr, .rol, .ror]) (config : Config) (m : Machine)
    (bs : List Byte) :
    ∃ rs last, Turns config rotate [] op m (.replicate bs.length .accumulator) bs rs last := by
  induction bs generalizing op m with
  | nil => exact ⟨[], m, .nil op m⟩
  | cons b bs ih =>
    obtain ⟨ready, r, next, hstatus, hturn⟩ := Turn.exists_in_accumulator hop config m b
    obtain ⟨rs, last, hrest⟩ := ih hrotate next
    exact ⟨r :: rs, last,
      .cons (congrArg Status.carry hstatus) (fun _ ha => absurd ha List.not_mem_nil) hturn hrest⟩

/-- The bytes in any cells can be changed there, if three addresses after each other are left for
the instructions. -/
theorem exists_in_cells {kept : List Word} {start : Word}
    (hfree : ∀ i < 3, start + .ofNat 16 i ∉ kept) (config : Config) (op rotate : ModifyOp)
    (m : Machine) (cells : List Word) :
    ∃ bs rs last, Turns config rotate kept op m (cells.map .cell) bs rs last := by
  induction cells generalizing op m with
  | nil => exact ⟨[], [], m, .nil op m⟩
  | cons a cells ih =>
    obtain ⟨ready, b, r, next, hstatus, hkeeps, hturn⟩ := Turn.exists_in_cell config op m a start
    obtain ⟨bs, rs, last, hrest⟩ := ih rotate next
    refine ⟨b :: bs, r :: rs, last,
      .cons (congrArg Status.carry hstatus) (fun c hc => hkeeps c ?_) hturn hrest⟩
    rintro i hi rfl
    exact hfree i hi hc

end Turns

/-- A number can be rotated through the accumulator any number of times. -/
theorem Rounds.exists_in_accumulator (config : Config) (k : Nat) (m : Machine) (bs : List Byte) :
    ∃ qs last, Rounds config k m bs qs last := by
  induction k generalizing m bs with
  | zero => exact ⟨bs, m, .zero m bs⟩
  | succ k ih =>
    have hrol : ModifyOp.rol ∈ [.asl, .lsr, .rol, .ror] := by decide
    obtain ⟨rs, next, hround⟩ := Turns.exists_in_accumulator hrol hrol config m bs
    obtain ⟨qs, last, hrest⟩ := ih next rs
    exact ⟨qs, last, .succ (.inAccumulator hround) hrest⟩

namespace Shifting

/-- Shifts and rotations of any width, in different cells or through the accumulator, with anything
between the bytes that leaves the carry alone. Any bytes can be changed so. From the lowest byte up
a number is doubled, from the highest down it is halved. The carry of before, or nothing after a
shift, takes the bit that becomes free, and the bit that has no room left is the carry. A rotation
to one side undoes a rotation to the other, and as many rotations to the left as the bytes and the
carry have bits change nothing at all. -/
theorem rotation_of_any_width (config : Config) :
    (∀ op ∈ [ModifyOp.asl, .lsr, .rol, .ror], ∀ rotate ∈ [ModifyOp.asl, .lsr, .rol, .ror],
      ∀ (m : Machine) (bs : List Byte), ∃ rs last, Shifting config rotate op m bs rs last) ∧
    (∀ (cells : List Word) (start : Word), (∀ i < 3, start + .ofNat 16 i ∉ cells) →
      ∀ (op rotate : ModifyOp) (m : Machine), ∃ bs rs last,
        Turns config rotate cells op m (cells.map .cell) bs rs last) ∧
    (∀ (op : ModifyOp) (m last : Machine) (bs rs : List Byte), op = .asl ∨ op = .rol →
      0 < bs.length → Shifting config .rol op m bs rs last →
      let n := bs.length
      let c := op.bitIn m.registers.status.carry
      rs.length = n ∧ number rs = (2 * number bs + c) % 256 ^ n ∧
        last.registers.status.has .carry = (number bs).testBit (8 * n - 1)) ∧
    (∀ (op : ModifyOp) (m last : Machine) (bs rs : List Byte), op = .lsr ∨ op = .ror →
      0 < bs.length → Shifting config .ror op m bs.reverse rs.reverse last →
      let n := bs.length
      let c := op.bitIn m.registers.status.carry
      rs.length = n ∧ number rs = (number bs + c * 256 ^ n) / 2 ∧
        last.registers.status.has .carry = (number bs).testBit 0) ∧
    (∀ (m last m' last' : Machine) (bs rs qs : List Byte),
      last.registers.status.carry = m'.registers.status.carry →
      Shifting config .rol .rol m bs rs last ∧
          Shifting config .ror .ror m' rs.reverse qs.reverse last' ∨
        Shifting config .ror .ror m bs.reverse rs.reverse last ∧
          Shifting config .rol .rol m' rs qs last' →
      qs = bs ∧ last'.registers.status.carry = m.registers.status.carry) ∧
    ∀ (m : Machine) (bs : List Byte),
      let full := 8 * bs.length + 1
      (∃ qs last, Rounds config full m bs qs last) ∧
      ∀ qs last, Rounds config full m bs qs last →
        qs = bs ∧ last.registers.status.carry = m.registers.status.carry := by
  refine ⟨?exist, ?existInCells, ?left, ?right, ?undo, ?rounds⟩
  case exist =>
    intro op hop rotate hrotate m bs
    obtain ⟨rs, last, hturns⟩ := Turns.exists_in_accumulator hop hrotate config m bs
    exact ⟨rs, last, .inAccumulator hturns⟩
  case existInCells =>
    intro cells start hfree op rotate m
    exact Turns.exists_in_cells hfree config op rotate m cells
  case left =>
    intro op m last bs rs hop hn h n c
    have hdouble := h.doubling_of_left hop fun hnil => absurd hnil (List.ne_nil_of_length_pos hn)
    refine ⟨hdouble.length, hdouble.number_right, ?_⟩
    rw [Status.has_carry_eq_decide, hdouble.high_eq hn]
  case right =>
    intro op m last bs rs hop hn h n c
    have hdouble := h.doubling_of_right hop fun hnil => absurd hnil (List.ne_nil_of_length_pos hn)
    have hlength := hdouble.length
    refine ⟨hlength.symm, ?_, ?_⟩
    · rw [hdouble.number_left, ← hlength]
    · rw [Status.has_carry_eq_decide, hdouble.low_eq (hlength ▸ hn)]
  case undo =>
    rintro m last m' last' bs rs qs hcarry (⟨hfirst, hsecond⟩ | ⟨hfirst, hsecond⟩)
    · have hdouble := hfirst.doubling_of_left (.inr rfl) fun _ => rfl
      have hhalf := hsecond.doubling_of_right (.inr rfl) fun _ => rfl
      rw [hcarry] at hdouble
      exact hhalf.left_unique hdouble
    · have hhalf := hfirst.doubling_of_right (.inr rfl) fun _ => rfl
      have hdouble := hsecond.doubling_of_left (.inr rfl) fun _ => rfl
      rw [hcarry] at hhalf
      exact hdouble.right_unique hhalf
  case rounds =>
    intro m bs full
    exact ⟨Rounds.exists_in_accumulator config full m bs, fun qs last h => h.eq_of_full⟩

/-- `$C080` in page zero is rotated to the left with the carry set, and back to the right. And a
byte that passes through the accumulator is what it was after nine rounds. -/
theorem rotation_of_two_cells :
    let m : Machine := ⟨{ Registers.powerOn with pc := 0x0200, status := ⟨0x01⟩ },
      (Memory.blank.load 0x0010 [0x80, 0xC0]).load 0x0200
        [0x26, 0x10, 0x26, 0x11, 0x66, 0x11, 0x66, 0x10]⟩
    let middle := (Machine.run .standard 2 m).machine
    let last := (Machine.run .standard 4 m).machine
    number ([0x0010, 0x0011].map middle.memory.read) = 0x8101 ∧
      middle.registers.status.has .carry = true ∧
      [0x0010, 0x0011].map last.memory.read = [0x80, 0xC0] ∧ last.registers.status.carry = 1 ∧
      ∃ after, Rounds .standard 9 m [0x81] [0x81] after := by
  intro m middle last
  have turn (k : Nat) (e : Encoding) (op : ModifyOp) (a : Word)
      (hn : (Machine.run .standard k m).machine.next? = some e)
      (hi : e.instruction = .modify op (.data .zeroPage))
      (ha : (Machine.run .standard k m).machine.cell .highFirst .zeroPage = a) :
      Turn .standard op (Machine.run .standard k m).machine (.cell a) _ _
        (Machine.run .standard (k + 1) m).machine :=
    ⟨⟨e, .data .zeroPage, hn, hi, congrArg Place.cell ha⟩, rfl,
      (Machine.machine_run_succ .standard k m).symm, rfl⟩
  have low := turn 0 ⟨0x26, .modify .rol (.data .zeroPage), 5⟩ .rol 0x0010 (by decide) rfl
    (by decide)
  have high := turn 1 ⟨0x26, .modify .rol (.data .zeroPage), 5⟩ .rol 0x0011 (by decide) rfl
    (by decide)
  have high' := turn 2 ⟨0x66, .modify .ror (.data .zeroPage), 5⟩ .ror 0x0011 (by decide) rfl
    (by decide)
  have low' := turn 3 ⟨0x66, .modify .ror (.data .zeroPage), 5⟩ .ror 0x0010 (by decide) rfl
    (by decide)
  let cells : List Word := [0x0010, 0x0011]
  have hleft : Shifting .standard .rol .rol m (cells.map m.memory.read)
      (cells.map middle.memory.read) middle :=
    .inCells (by decide) (.cons rfl (fun _ _ => rfl) low
      (.cons rfl (fun _ _ => rfl) high (.nil .rol middle)))
  have hdistinct : cells.reverse.Nodup := by decide
  have hright : Shifting .standard .ror .ror middle (cells.map middle.memory.read).reverse
      (cells.map last.memory.read).reverse last :=
    .inCells hdistinct (.cons rfl (fun _ _ => rfl) high'
      (.cons rfl (fun _ _ => rfl) low' (.nil .ror last)))
  obtain ⟨-, -, hdouble, -, hundo, hrounds⟩ := rotation_of_any_width .standard
  obtain ⟨-, hnumber, hcarry⟩ := hdouble .rol m middle _ _ (.inr rfl) (by decide) hleft
  obtain ⟨hback, hlast⟩ := hundo _ _ _ _ _ _ _ rfl (.inl ⟨hleft, hright⟩)
  obtain ⟨⟨qs, after, hafter⟩, hfull⟩ := hrounds m [0x81]
  obtain ⟨rfl, -⟩ := hfull qs after hafter
  refine ⟨hnumber.trans ?_, hcarry.trans ?_, hback.trans ?_, hlast.trans ?_, after, hafter⟩
  · decide
  · decide
  · decide
  · decide

end Shifting

end M6502
