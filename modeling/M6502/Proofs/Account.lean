import M6502.Proofs.Arithmetic
import M6502.Proofs.Faults

/-!
# Accounts of operations

An account says in whole numbers what an operation makes of the numbers that it is given: its result
and its flags. It knows nothing of addressing modes, of bytes that wrap, or of how the flags are
computed. One step at an opcode does to its destination and to every flag what the account of its
operation says, wherever the operand is.

## Main definitions

* `Inputs`, `Account` — the numbers that an operation is given, and what it makes of them.
* `Operation.account` — the accounts of loads, stores, transfers, logic, sums, differences,
  comparisons, shifts and counting.
* `Account.Holds` — a machine afterwards has what an account says, and keeps all other flags.

## Main statements

* `Machine.step_account` — a step leaves what the account of its operation says.
-/

namespace M6502

/-- Where an operation leaves its result. -/
inductive Destination where
  | a
  | x
  | y
  | sp
  | operand
deriving DecidableEq, Repr

/-- The numbers that an operation is given. -/
structure Inputs where
  a : Nat
  x : Nat
  y : Nat
  sp : Nat
  operand : Nat
  carry : Nat
deriving DecidableEq, Repr

/-- What an operation makes of its inputs. It leaves a flag alone if it says nothing about it. -/
structure Account where
  result : Option (Destination × Int) := none
  negative : Option Bool := none
  zero : Option Bool := none
  carry : Option Bool := none
  overflow : Option Bool := none
deriving DecidableEq, Repr

namespace Account

/-- What an account says about a flag. -/
def flag (account : Account) : Flag → Option Bool
  | .negative => account.negative
  | .zero => account.zero
  | .carry => account.carry
  | .overflow => account.overflow
  | .irqDisable | .decimal => none

/-- The number `n` is left as a byte. -/
def value (d : Destination) (n : Int) : Account where
  result := some (d, n % 256)
  negative := some (decide (128 ≤ n % 256))
  zero := some (decide (n % 256 = 0))

def sum (a v carry : Nat) : Account :=
  { value .a (a + v + carry) with
    carry := some (decide (255 < a + v + carry))
    overflow := some (outOfRange (signed a + signed v + carry)) }

/-- A clear carry is a borrow: the one from before is subtracted too, and a new one is left. -/
def difference (a v carry : Nat) : Account :=
  let n : Int := a - v - (1 - carry)
  { value .a n with
    carry := some (decide (0 ≤ n))
    overflow := some (outOfRange (signed a - signed v - (1 - carry))) }

def comparison (r v : Nat) : Account where
  negative := some (decide (128 ≤ ((r : Int) - v) % 256))
  zero := some (decide (r = v))
  carry := some (decide (v ≤ r))

def test (a v : Nat) : Account where
  negative := some (v.testBit 7)
  zero := some (decide (a &&& v = 0))
  overflow := some (v.testBit 6)

/-- Eight bits and the bit that comes in below them; the ninth bit of these goes to the carry. -/
def shiftLeft (n bitIn : Nat) : Account :=
  let wide := 2 * n + bitIn
  { value .operand wide with carry := some (decide (256 ≤ wide)) }

/-- Eight bits and the bit that comes in above them; the lowest bit of these goes to the carry. -/
def shiftRight (n bitIn : Nat) : Account :=
  let wide := 256 * bitIn + n
  { value .operand ((wide / 2 : Nat) : Int) with carry := some (decide (wide % 2 = 1)) }

end Account

/-! ## The accounts -/

def ReadOp.account (op : ReadOp) (i : Inputs) : Account :=
  match op with
  | lda => .value .a i.operand
  | ldx => .value .x i.operand
  | ldy => .value .y i.operand
  | adc => .sum i.a i.operand i.carry
  | sbc => .difference i.a i.operand i.carry
  | and => .value .a ((i.a &&& i.operand : Nat) : Int)
  | ora => .value .a ((i.a ||| i.operand : Nat) : Int)
  | eor => .value .a ((i.a ^^^ i.operand : Nat) : Int)
  | bit => .test i.a i.operand
  | cmp => .comparison i.a i.operand
  | cpx => .comparison i.x i.operand
  | cpy => .comparison i.y i.operand

def WriteOp.account (op : WriteOp) (i : Inputs) : Account where
  result := some (.operand, match op with | sta => i.a | stx => i.x | sty => i.y)

def ModifyOp.account (op : ModifyOp) (i : Inputs) : Account :=
  match op with
  | asl => .shiftLeft i.operand 0
  | lsr => .shiftRight i.operand 0
  | rol => .shiftLeft i.operand i.carry
  | ror => .shiftRight i.operand i.carry
  | inc => .value .operand (i.operand + 1)
  | dec => .value .operand (i.operand - 1)

/-- Operations that set a single flag, or do nothing, have no account. -/
def RegisterOp.account (op : RegisterOp) (i : Inputs) : Option Account :=
  match op with
  | tax => some (.value .x i.a)
  | tay => some (.value .y i.a)
  | txa => some (.value .a i.x)
  | tya => some (.value .a i.y)
  | tsx => some (.value .x i.sp)
  | txs => some { result := some (.sp, 256 + i.x) }
  | inx => some (.value .x (i.x + 1))
  | iny => some (.value .y (i.y + 1))
  | dex => some (.value .x (i.x - 1))
  | dey => some (.value .y (i.y - 1))
  | clc | sec | cli | sei | clv | cld | sed | nop => none

/-- The account of an operation; nothing, if it works on the stack, the flow of control or a single
flag. -/
def Operation.account (op : Operation) (i : Inputs) : Option Account :=
  match op with
  | read op => some (op.account i)
  | write op => some (op.account i)
  | modify op => some (op.account i)
  | register op => op.account i
  | stack _ | branch _ | jmp | jsr | rts | rti | brk => none

/-! ## What a machine has -/

namespace Machine

/-- The numbers that a machine gives to an operation with a given operand. -/
def inputs (m : Machine) (operand : Operand) : Inputs where
  a := m.registers.a.toNat
  x := m.registers.x.toNat
  y := m.registers.y.toNat
  sp := m.registers.sp.toNat
  operand := ((operand.byte? m).getD 0).toNat
  carry := m.registers.status.carry

/-- The number at a destination. -/
def content (m : Machine) (operand : Operand) : Destination → Option Int
  | .a => some m.registers.a.toNat
  | .x => some m.registers.x.toNat
  | .y => some m.registers.y.toNat
  | .sp => some m.registers.sp.toNat
  | .operand => (operand.byte? m).map fun v => v.toNat

end Machine

/-- A machine afterwards has the result and the flags of an account, and every other flag is as it
was. -/
structure Account.Holds (account : Account) (operand : Operand) (before after : Machine) :
    Prop where
  result : ∀ r ∈ account.result, after.content operand r.1 = some r.2
  flags : ∀ f, after.registers.status.has f =
    (account.flag f).getD (before.registers.status.has f)

/-! ## Effects and accounts agree -/

theorem toNat_eq_emod (v : Byte) : (v.toNat : Int) = v.toNat % 256 := by
  have hv := v.isLt
  omega

theorem toNat_sub_one (v : Byte) : ((v - 1).toNat : Int) = ((v.toNat : Int) - 1) % 256 := by
  have hv := v.isLt
  rw [BitVec.toNat_sub]
  simp
  omega

theorem msb_eq_decide_le {v : Byte} {n : Int} (h : (v.toNat : Int) = n) :
    v.msb = decide (128 ≤ n) := by
  rw [msb_eq_not_decide_lt, ← h, ← decide_not, decide_eq_decide]
  omega

theorem beq_zero_eq_decide {v : Byte} {n : Int} (h : (v.toNat : Int) = n) :
    (v == 0) = decide (n = 0) := by
  rw [Bool.eq_iff_iff, beq_iff_eq, decide_eq_true_iff, ← BitVec.toNat_inj, ← h]
  simp

namespace Effect

variable {a b v : Byte} {n : Int}

theorem decides_value (hv : (v.toNat : Int) = n % 256) (d : Destination) (f : Flag) :
    (value v).decides f = (Account.value d n).flag f := by
  cases f with
  | negative => exact congrArg some (msb_eq_decide_le hv)
  | zero => exact congrArg some (beq_zero_eq_decide hv)
  | carry | overflow | irqDisable | decimal => rfl

theorem decides_shift {carry : Bool} (hv : (v.toNat : Int) = n % 256) (d : Destination)
    (f : Flag) :
    (shift v carry).decides f = { Account.value d n with carry := some carry }.flag f := by
  cases f with
  | negative => exact congrArg some (msb_eq_decide_le hv)
  | zero => exact congrArg some (beq_zero_eq_decide hv)
  | carry | overflow | irqDisable | decimal => rfl

theorem decides_sum {carry overflow : Bool} (hv : (v.toNat : Int) = n % 256)
    (ho : (~~~(a ^^^ b) &&& (a ^^^ v)).msb = overflow) (d : Destination) (f : Flag) :
    (sum a b v carry).decides f =
      { Account.value d n with carry := some carry, overflow := some overflow }.flag f := by
  cases f with
  | negative => exact congrArg some (msb_eq_decide_le hv)
  | zero => exact congrArg some (beq_zero_eq_decide hv)
  | overflow => exact congrArg some ho
  | carry | irqDisable | decimal => rfl

theorem decides_difference (f : Flag) :
    (difference a b).decides f = (Account.comparison a.toNat b.toNat).flag f := by
  have ha := a.isLt
  have hb := b.isLt
  have hv : ((a - b).toNat : Int) = ((a.toNat : Int) - b.toNat) % 256 := by
    rw [BitVec.toNat_sub]
    omega
  cases f with
  | negative => exact congrArg some (msb_eq_decide_le hv)
  | zero =>
    refine congrArg some ((beq_zero_eq_decide hv).trans (decide_eq_decide.mpr ?_))
    omega
  | carry => exact congrArg some (BitVec.ule_eq_decide ..)
  | overflow | irqDisable | decimal => rfl

theorem decides_test (f : Flag) :
    (test a b).decides f = (Account.test a.toNat b.toNat).flag f := by
  cases f with
  | negative => exact congrArg some (BitVec.msb_eq_getLsbD_last b)
  | zero =>
    have hv : ((a &&& b).toNat : Int) = (a.toNat &&& b.toNat : Nat) := by
      rw [BitVec.toNat_and]
    refine congrArg some ((beq_zero_eq_decide hv).trans (decide_eq_decide.mpr ?_))
    omega
  | overflow => rfl
  | carry | irqDisable | decimal => rfl

end Effect

/-! ## Each kind of operation -/

namespace Account

variable {operand : Operand} {before after : Machine}

/-- An effect that decides what an account says leaves every flag as the account says. -/
theorem holds_of_decides {account : Account} {effect : Effect}
    (hr : ∀ r ∈ account.result, after.content operand r.1 = some r.2)
    (hs : after.registers.status = before.registers.status.apply effect)
    (hf : ∀ f, effect.decides f = account.flag f) : account.Holds operand before after := by
  refine ⟨hr, fun f => ?_⟩
  rw [hs, Status.has_apply, hf]

theorem holds_value {d : Destination} {n : Int} {v : Byte} (hv : (v.toNat : Int) = n % 256)
    (hd : after.content operand d = some (v.toNat : Int))
    (hs : after.registers.status = before.registers.status.apply (.value v)) :
    (value d n).Holds operand before after := by
  refine holds_of_decides ?_ hs (Effect.decides_value hv d)
  rintro _ ⟨⟩
  exact hd.trans (congrArg some hv)

end Account

section

variable {m : Machine} {operand : Operand} {v : Byte} (n : Word)

theorem Machine.operand_inputs (hv : operand.byte? m = some v) :
    (m.inputs operand).operand = v.toNat := by
  rw [inputs, hv]
  rfl

/-- A sum with a byte, of which a difference is a case: there the byte is a complement. -/
theorem Machine.addWithCarry_holds (m : Machine) (operand : Operand) (n : Word) {b : Byte} {k : Int}
    {carry overflow : Bool}
    (hk : (BitVec.ofNat 8 (m.registers.a.toNat + b.toNat + m.registers.status.carry)).toNat =
      k % 256)
    (hc : decide (255 < m.registers.a.toNat + b.toNat + m.registers.status.carry) = carry)
    (ho : outOfRange (signed m.registers.a.toNat + signed b.toNat + m.registers.status.carry) =
      overflow) :
    { Account.value .a k with carry := some carry, overflow := some overflow }.Holds operand m
      { m with registers := (m.registers.advance n).addWithCarry b } := by
  have hcarry : m.registers.status.carry ≤ 1 := Bool.toNat_le _
  have hv := (overflow_eq hcarry (toNat_sum m.registers.a b m.registers.status.carry)).trans ho
  subst hc
  refine Account.holds_of_decides ?_ rfl (Effect.decides_sum hk hv .a)
  rintro _ ⟨⟩
  exact congrArg some hk

/-- An operation that reads a byte has its account, wherever the byte was read. -/
theorem ReadOp.account_holds (op : ReadOp) (hv : operand.byte? m = some v) :
    (op.account (m.inputs operand)).Holds operand m
      { m with registers := op.apply v (m.registers.advance n) } := by
  have hin : (m.inputs operand).operand = v.toNat := m.operand_inputs hv
  cases op with
  | lda | ldx | ldy =>
    rw [account, hin]
    exact Account.holds_value (toNat_eq_emod v) rfl rfl
  | and =>
    rw [account, hin]
    refine Account.holds_value (v := m.registers.a &&& v) ?_ rfl rfl
    rw [toNat_eq_emod, BitVec.toNat_and]
    rfl
  | ora =>
    rw [account, hin]
    refine Account.holds_value (v := m.registers.a ||| v) ?_ rfl rfl
    rw [toNat_eq_emod, BitVec.toNat_or]
    rfl
  | eor =>
    rw [account, hin]
    refine Account.holds_value (v := m.registers.a ^^^ v) ?_ rfl rfl
    rw [toNat_eq_emod, BitVec.toNat_xor]
    rfl
  | adc =>
    rw [account, hin]
    refine m.addWithCarry_holds operand n ?_ rfl rfl
    rw [toNat_sum]
    rfl
  | sbc =>
    rw [account, hin]
    refine m.addWithCarry_holds operand n (toNat_difference ..) ?_ ?_
    · rw [toNat_complement, decide_eq_decide]
      simp only [Machine.inputs]
      omega
    · rw [signed_complement]
      refine congrArg outOfRange ?_
      simp only [Machine.inputs]
      omega
  | bit =>
    rw [account, hin]
    exact Account.holds_of_decides (by rintro _ ⟨⟩) rfl Effect.decides_test
  | cmp | cpx | cpy =>
    rw [account, hin]
    exact Account.holds_of_decides (by rintro _ ⟨⟩) rfl Effect.decides_difference

/-- What can be changed at a place can be read there. -/
theorem Operand.byte?_of_place? {p : Place} (hp : operand.place? = some p) (m : Machine) :
    operand.byte? m = some (m.get p) := by
  cases operand with
  | accumulator | address a =>
    cases hp
    rfl
  | none | immediate value | relative offset => cases hp

@[simp] theorem Machine.get_put (m : Machine) (v : Byte) (p : Place) : (m.put v p).get p = v := by
  cases p with
  | accumulator => rfl
  | cell a => exact m.memory.read_write_self a v

@[simp] theorem Machine.status_put (m : Machine) (v : Byte) (p : Place) :
    (m.put v p).registers.status = m.registers.status := by
  cases p <;> rfl

/-- The byte and the flags that an operation makes of a byte are those of its account. -/
theorem ModifyOp.account_eq (op : ModifyOp) {i : Inputs} {old : Byte} {c : Bool}
    (ho : i.operand = old.toNat) (hc : i.carry = c.toNat) :
    (op.account i).result = some (.operand, ((op.value old c).toNat : Int)) ∧
      ∀ f, (op.effect old c).decides f = (op.account i).flag f := by
  have hcarry : c.toNat ≤ 1 := Bool.toNat_le _
  cases op with
  | asl =>
    have hv : ((old <<< 1).toNat : Int) = (2 * old.toNat + 0 : Nat) % 256 := by
      rw [toNat_shiftLeft_one]
      rfl
    rw [account, effect, value, ho, msb_eq_decide_rotateLeft old (Nat.zero_le 1)]
    exact ⟨congrArg (fun k => some (_, k)) hv.symm, Effect.decides_shift hv _⟩
  | rol =>
    have hv : ((rol.value old c).toNat : Int) = (2 * old.toNat + c.toNat : Nat) % 256 := by
      rw [value, toNat_rotateLeft]
      rfl
    rw [account, effect, ho, hc, msb_eq_decide_rotateLeft old hcarry]
    exact ⟨congrArg (fun k => some (_, k)) hv.symm, Effect.decides_shift hv _⟩
  | lsr =>
    have hv : ((old >>> 1).toNat : Int) = ((256 * 0 + old.toNat) / 2 : Nat) % 256 := by
      rw [toNat_eq_emod, toNat_shiftRight_one, Nat.mul_zero, Nat.zero_add]
    rw [account, effect, value, ho, getLsbD_zero_eq_decide_rotateRight old 0]
    exact ⟨congrArg (fun k => some (_, k)) hv.symm, Effect.decides_shift hv _⟩
  | ror =>
    have hv : ((ror.value old c).toNat : Int) =
        ((256 * c.toNat + old.toNat) / 2 : Nat) % 256 := by
      rw [toNat_eq_emod, value, toNat_rotateRight]
    rw [account, effect, ho, hc, getLsbD_zero_eq_decide_rotateRight old c.toNat]
    exact ⟨congrArg (fun k => some (_, k)) hv.symm, Effect.decides_shift hv _⟩
  | inc =>
    have hv : ((old + 1).toNat : Int) = ((old.toNat : Int) + 1) % 256 := by
      rw [BitVec.toNat_add]
      rfl
    rw [account, effect, value, ho]
    exact ⟨congrArg (fun k => some (_, k)) hv.symm, Effect.decides_value hv _⟩
  | dec =>
    have hv : ((old - 1).toNat : Int) = ((old.toNat : Int) - 1) % 256 := toNat_sub_one old
    rw [account, effect, value, ho]
    exact ⟨congrArg (fun k => some (_, k)) hv.symm, Effect.decides_value hv _⟩

/-- An operation that changes a byte in place has its account, wherever the byte is. -/
theorem ModifyOp.account_holds (op : ModifyOp) {p : Place} (hp : operand.place? = some p) :
    (op.account (m.inputs operand)).Holds operand m
      (Machine.modify { m with registers := m.registers.advance n } op p) := by
  have hin : (m.inputs operand).operand = (m.get p).toNat :=
    m.operand_inputs (operand.byte?_of_place? hp m)
  have hget : Machine.get { m with registers := m.registers.advance n } p = m.get p := by
    cases p <;> rfl
  obtain ⟨hresult, hflags⟩ := op.account_eq (c := m.registers.status.has .carry) hin rfl
  rw [Machine.modify, hget]
  refine Account.holds_of_decides ?_ (Machine.status_put _ _ p) hflags
  rw [hresult]
  rintro _ ⟨⟩
  rw [Machine.content, operand.byte?_of_place? hp, Machine.get_put]
  rfl

/-- A store has its account: the operand holds the register afterwards. -/
theorem WriteOp.account_holds (op : WriteOp) (m : Machine) (a : Word) (n : Word) :
    (op.account (m.inputs (.address a))).Holds (.address a) m
      ⟨m.registers.advance n, m.memory.write a (op.value m.registers)⟩ := by
  refine ⟨?_, fun f => by cases f <;> rfl⟩
  rintro _ ⟨⟩
  simp only [Machine.content, Operand.byte?, Memory.read_write_self]
  cases op <;> rfl

/-- An operation on registers has its account, if it is one that is accounted for. -/
theorem RegisterOp.account_holds (op : RegisterOp) {account : Account}
    (ha : op.account (m.inputs operand) = some account) :
    account.Holds operand m { m with registers := op.apply (m.registers.advance n) } := by
  cases op with
  | tax | tay | txa | tya =>
    obtain rfl := Option.some.inj ha
    exact Account.holds_value (toNat_eq_emod _) rfl rfl
  | tsx =>
    obtain rfl := Option.some.inj ha
    refine Account.holds_value (v := m.registers.sp.low) ?_ rfl rfl
    rw [Word.toNat_low]
    rfl
  | txs =>
    obtain rfl := Option.some.inj ha
    refine ⟨?_, fun f => by cases f <;> rfl⟩
    rintro _ ⟨⟩
    refine congrArg (fun n : Nat => some (n : Int)) ?_
    exact (Word.toNat_ofBytes 1 m.registers.x).trans rfl
  | inx =>
    obtain rfl := Option.some.inj ha
    refine Account.holds_value (v := m.registers.x + 1) ?_ rfl rfl
    rw [BitVec.toNat_add]
    rfl
  | iny =>
    obtain rfl := Option.some.inj ha
    refine Account.holds_value (v := m.registers.y + 1) ?_ rfl rfl
    rw [BitVec.toNat_add]
    rfl
  | dex =>
    obtain rfl := Option.some.inj ha
    exact Account.holds_value (v := m.registers.x - 1) (toNat_sub_one _) rfl rfl
  | dey =>
    obtain rfl := Option.some.inj ha
    exact Account.holds_value (v := m.registers.y - 1) (toNat_sub_one _) rfl rfl
  | clc | sec | cli | sei | clv | cld | sed | nop => cases ha

end

/-! ## Every step -/

namespace Machine

variable (m : Machine) (order : ByteOrder)

theorem byte?_resolve (op : ReadOp) (source : Source) :
    (m.resolve order (.read op source)).operand.byte? m = some (source.byte m order) := by
  cases source with
  | immediate => rfl
  | data mode =>
    rw [(m.resolve_data order (i := .read op (.data mode)) rfl).1]
    rfl

theorem place?_resolve (op : ModifyOp) (target : Target) :
    (m.resolve order (.modify op target)).operand.place? = some (target.place m order) := by
  cases target with
  | accumulator => rfl
  | data mode =>
    rw [(m.resolve_data order (i := .modify op (.data mode)) rfl).1]
    rfl

/-- One step at a documented opcode leaves in its destination and in every flag what the account of
its operation makes of the numbers before. The account is the same for every addressing mode. -/
theorem step_account (config : Config) {e : Encoding} {account : Account} (hn : m.next? = some e)
    (ha : e.instruction.operation.account
      (m.inputs (m.resolve config.order e.instruction).operand) = some account) :
    (∃ cycles, (step config m).result = .ok cycles) ∧
      account.Holds (m.resolve config.order e.instruction).operand m (step config m).machine := by
  rw [step_of_next? hn config]
  refine ⟨⟨_, rfl⟩, ?_⟩
  obtain ⟨opcode, i, cycles⟩ := e
  simp only [executed, execute] at ha ⊢
  cases i with
  | read op source =>
    obtain rfl := Option.some.inj ha
    exact op.account_holds _ (m.byte?_resolve config.order op source)
  | write op mode =>
    obtain rfl := Option.some.inj ha
    rw [(m.resolve_data config.order (i := .write op mode) rfl).1]
    exact op.account_holds m _ _
  | modify op target =>
    obtain rfl := Option.some.inj ha
    exact op.account_holds _ (m.place?_resolve config.order op target)
  | register op => exact op.account_holds _ ha
  | stack op | branch op | jmp mode | jsr | rts | rti | brk => cases ha

/-- `$50` less `$B0`, with the decimal flag and the two extra bits set: the difference is binary, it
borrows, and it overflows. -/
theorem step_account_of_overflow :
    let m : Machine := ⟨{ Registers.powerOn with a := 0x50, pc := 0x0200, status := ⟨0x39⟩ },
      (Memory.blank.write 0x0200 0xE9).write 0x0201 0xB0⟩
    let after := (step .hardware m).machine
    after.registers.a.toNat = 0xA0 ∧ after.registers.status.has .carry = false ∧
      after.registers.status.has .overflow = true := by
  intro m after
  have hn : m.next? = some ⟨0xE9, .read .sbc .immediate, 2⟩ := by decide +kernel
  have ha : ReadOp.sbc.account (m.inputs (m.resolve .lowFirst (.read .sbc .immediate)).operand) =
      ⟨some (.a, 0xA0), some true, some false, some false, some true⟩ := by
    decide +kernel
  obtain ⟨-, hresult, hflags⟩ := m.step_account .hardware hn (congrArg some ha)
  have hdone : (after.registers.a.toNat : Int) = 0xA0 := Option.some.inj (hresult _ rfl)
  exact ⟨Int.ofNat.inj hdone, hflags .carry, hflags .overflow⟩

end Machine

end M6502
