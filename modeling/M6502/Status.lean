import M6502.Word

/-!
# The status register

Six flags live in the status register. Two more bits of the byte, the *break* bit and the *unused*
bit, are no flags: they stand only in the byte that a push of the register puts on the stack. A
`Status` keeps a whole byte all the same, so that a caller may hold one with those two bits set;
`Status.flagsOnly` drops them.

Several flags can be named at once by a mask. `Status.hasAll` and `Status.setAll` take any mask,
`Status.has` and `Status.set` take one flag.

## Main definitions

* `Flag`, `Flag.bit`, `Flag.mask` — the flags and where they stand.
* `Status.hasAll`, `Status.setAll` — reading and setting the bits of a mask.
* `Status.flagsOnly`, `Status.pushedByte`, `Status.ofPulledByte` — the register and its pushed byte.

## Main statements

* `Status.getLsbD_setAll` — setting a mask changes its bits and no other.
* `Status.has_set` — setting a flag changes that flag and no other.
* `Status.ofPulledByte_pushedByte` — a pushed status comes back without its two extra bits.
-/

namespace M6502

/-- The flags of the status register, from the lowest bit up. -/
inductive Flag where
  | carry
  | zero
  | irqDisable
  | decimal
  | overflow
  | negative
deriving DecidableEq, Repr

namespace Flag

def all : List Flag := [carry, zero, irqDisable, decimal, overflow, negative]

/-- The position of a flag in the status byte. -/
def bit : Flag → Nat
  | carry => 0
  | zero => 1
  | irqDisable => 2
  | decimal => 3
  | overflow => 6
  | negative => 7

/-- The byte in which only this flag's bit is set. -/
def mask (f : Flag) : Byte := BitVec.twoPow 8 f.bit

theorem mem_all (f : Flag) : f ∈ all := by
  cases f <;> decide

theorem bit_lt (f : Flag) : f.bit < 8 := by
  cases f <;> decide

theorem bit_inj {f g : Flag} : f.bit = g.bit ↔ f = g := by
  cases f <;> cases g <;> decide

end Flag

/-- The status register, as the byte it is kept in. -/
structure Status where
  bits : Byte
deriving DecidableEq, Repr

namespace Status

/-- The bit of a pushed status byte that tells a software push. -/
def breakBit : Byte := 0x10

/-- The bit of a pushed status byte that has no meaning and reads as one. -/
def unusedBit : Byte := 0x20

/-- The bits of the six flags. -/
def flagBits : Byte := 0xCF

def empty : Status := ⟨0⟩

instance : Inhabited Status := ⟨empty⟩

/-- All bits of `mask` are set; there is nothing to ask of an empty mask. -/
def hasAll (s : Status) (mask : Byte) : Bool := s.bits &&& mask == mask

def setAll (s : Status) (mask : Byte) (on : Bool) : Status :=
  ⟨if on then s.bits ||| mask else s.bits &&& ~~~mask⟩

def has (s : Status) (f : Flag) : Bool := s.hasAll f.mask

def set (s : Status) (f : Flag) (on : Bool) : Status := s.setAll f.mask on

def flags (s : Status) : List Flag := Flag.all.filter s.has

/-- The status without any bit that is not a flag. -/
def flagsOnly (s : Status) : Status := ⟨s.bits &&& flagBits⟩

/-- The byte a push of the status puts on the stack: the flags, and both extra bits set. -/
def pushedByte (s : Status) : Byte := s.flagsOnly.bits ||| breakBit ||| unusedBit

/-- The status pulled from a stack byte: the flags, and both extra bits dropped. -/
def ofPulledByte (b : Byte) : Status := ⟨b &&& flagBits⟩

/-- The status whose byte is `b`, if every set bit of `b` is a flag. -/
def ofBits? (b : Byte) : Option Status :=
  if b &&& ~~~flagBits = 0 then some ⟨b⟩ else none

def complement (s : Status) : Status := ⟨~~~s.bits &&& flagBits⟩

def carry (s : Status) : Nat := (s.has .carry).toNat

/-! ## Setting bits -/

/-- Setting or clearing a mask changes its bits and no other. -/
theorem getLsbD_setAll (s : Status) (mask : Byte) (on : Bool) {i : Nat} (hi : i < 8) :
    (s.setAll mask on).bits.getLsbD i = if mask.getLsbD i then on else s.bits.getLsbD i := by
  cases on
  · change (s.bits &&& ~~~mask).getLsbD i = _
    rw [BitVec.getLsbD_and, BitVec.getLsbD_not]
    cases mask.getLsbD i <;> simp [hi]
  · change (s.bits ||| mask).getLsbD i = _
    rw [BitVec.getLsbD_or]
    cases mask.getLsbD i <;> simp

theorem hasAll_iff (s : Status) (mask : Byte) :
    s.hasAll mask = true ↔ ∀ i < 8, mask.getLsbD i = true → s.bits.getLsbD i = true := by
  simp only [hasAll, beq_iff_eq, BitVec.eq_of_getLsbD_eq_iff, BitVec.getLsbD_and]
  refine forall_congr' fun i => forall_congr' fun _ => ?_
  cases mask.getLsbD i <;> simp

theorem has_eq_getLsbD (s : Status) (f : Flag) : s.has f = s.bits.getLsbD f.bit := by
  rw [Bool.eq_iff_iff, has, hasAll_iff]
  constructor
  · intro h
    exact h _ f.bit_lt (by simp [Flag.mask, f.bit_lt])
  · intro h i _ hm
    have : f.bit = i := by simpa [Flag.mask, f.bit_lt] using hm
    exact this ▸ h

theorem getLsbD_set (s : Status) (f : Flag) (on : Bool) {i : Nat} (hi : i < 8) :
    (s.set f on).bits.getLsbD i = if f.bit = i then on else s.bits.getLsbD i := by
  rw [set, getLsbD_setAll _ _ _ hi, Flag.mask, BitVec.getLsbD_twoPow]
  simp [f.bit_lt]

/-- Setting a flag changes that flag and no other. -/
theorem has_set (s : Status) (f g : Flag) (on : Bool) :
    (s.set f on).has g = if f = g then on else s.has g := by
  simp only [has_eq_getLsbD, getLsbD_set _ _ _ g.bit_lt, Flag.bit_inj]

/-- Two statuses are equal when they agree in every flag and in the two other bits. -/
theorem ext_has {s t : Status} (hf : ∀ f, s.has f = t.has f)
    (hb : s.bits.getLsbD 4 = t.bits.getLsbD 4) (hu : s.bits.getLsbD 5 = t.bits.getLsbD 5) :
    s = t := by
  obtain ⟨b⟩ := s
  obtain ⟨c⟩ := t
  congr 1
  simp only [has_eq_getLsbD] at hf
  refine BitVec.eq_of_getLsbD_eq fun i hi => ?_
  match i with
  | 0 => exact hf .carry
  | 1 => exact hf .zero
  | 2 => exact hf .irqDisable
  | 3 => exact hf .decimal
  | 4 => exact hb
  | 5 => exact hu
  | 6 => exact hf .overflow
  | 7 => exact hf .negative

/-! ## The stack byte -/

theorem pushedByte_eq (s : Status) : s.pushedByte = (s.bits &&& 0xCF) ||| 0x30 :=
  BitVec.or_assoc _ _ _

@[simp] theorem flagsOnly_flagsOnly (s : Status) : s.flagsOnly.flagsOnly = s.flagsOnly := by
  simp [flagsOnly, BitVec.and_assoc]

/-- Dropping the two other bits keeps every flag. -/
@[simp] theorem has_flagsOnly (s : Status) (f : Flag) : s.flagsOnly.has f = s.has f := by
  cases f <;> simp [has_eq_getLsbD, flagsOnly, flagBits, Flag.bit]

/-- The status pulled from a stack byte has no extra bits to drop. -/
@[simp] theorem flagsOnly_ofPulledByte (b : Byte) :
    (ofPulledByte b).flagsOnly = ofPulledByte b := by
  simp [ofPulledByte, flagsOnly, BitVec.and_assoc]

/-- A pushed status comes back without its two extra bits. -/
@[simp] theorem ofPulledByte_pushedByte (s : Status) : ofPulledByte s.pushedByte = s.flagsOnly := by
  simp only [ofPulledByte, pushedByte, flagsOnly, mk.injEq]
  generalize s.bits = b
  revert b
  decide

end Status

end M6502
