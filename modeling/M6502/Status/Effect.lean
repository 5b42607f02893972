import M6502.Status

/-!
# Effects on the flags

An instruction does not set flags one by one: it says what kind of result it had, and the status
register takes its flags from that. Each kind of effect owns some of the flags and leaves the
others as they were:

| effect       | N | Z | C | V |
|--------------|---|---|---|---|
| `value`      | x | x |   |   |
| `sum`        | x | x | x | x |
| `difference` | x | x | x |   |
| `shift`      | x | x | x |   |
| `test`       | x | x |   | x |

## Main definitions

* `Effect` — the flag-relevant outcome of an instruction.
* `Effect.decides` — what an effect makes of one flag.
* `Status.apply` — the status after an effect.

## Main statements

* `Status.has_apply` — a flag is what the effect decides, and is kept if it decides nothing.
* `Status.getLsbD_apply` — the two bits that are no flags are always kept.
-/

namespace M6502

/-- The flag-relevant outcome of one instruction. -/
inductive Effect where
  /-- A byte was loaded, moved or computed. -/
  | value (v : Byte)
  /-- `v` is the sum of `a` and `b`, with `carry` out of the top bit. A difference that is kept is
  the sum with the complement of what is subtracted. -/
  | sum (a b v : Byte) (carry : Bool)
  /-- A difference `a - b` of which only the flags are kept. -/
  | difference (a b : Byte)
  /-- A shift or rotation to `v` that moved `carry` out of the byte. -/
  | shift (v : Byte) (carry : Bool)
  /-- A test of `b` against the bits of `a`; the top two bits of `b` become flags. -/
  | test (a b : Byte)
deriving DecidableEq, Repr

namespace Effect

/-- The zero flag tells whether this byte is zero. -/
def zeroByte : Effect → Byte
  | value v | sum _ _ v _ | shift v _ => v
  | difference a b => a - b
  | test a b => a &&& b

/-- The negative flag is the top bit of this byte. -/
def signByte : Effect → Byte
  | value v | sum _ _ v _ | shift v _ => v
  | difference a b => a - b
  | test _ b => b

/-- The carry flag, for the effects that own it. A difference sets it when nothing is borrowed. -/
def carry : Effect → Option Bool
  | sum _ _ _ carry | shift _ carry => some carry
  | difference a b => some (b.ule a)
  | value _ | test .. => none

/-- The overflow flag, for the effects that own it. A sum overflows when its two terms share a
sign that the result does not have. -/
def overflow : Effect → Option Bool
  | sum a b v _ => some (~~~(a ^^^ b) &&& (a ^^^ v)).msb
  | test _ b => some (b.getLsbD 6)
  | value _ | difference .. | shift .. => none

/-- What an effect makes of a flag; nothing, if the flag is not its own. -/
def decides (e : Effect) : Flag → Option Bool
  | .zero => some (e.zeroByte == 0)
  | .negative => some e.signByte.msb
  | .carry => e.carry
  | .overflow => e.overflow
  | .irqDisable | .decimal => none

end Effect

namespace Status

/-- Gives one flag the value that is decided for it, if any is. -/
def settle (s : Status) (f : Flag) : Option Bool → Status
  | some on => s.set f on
  | none => s

/-- The status after an effect: every flag the effect decides takes the decided value. -/
def apply (s : Status) (e : Effect) : Status :=
  Flag.all.foldl (fun s f => s.settle f (e.decides f)) s

theorem has_settle (s : Status) (f g : Flag) (on : Option Bool) :
    (s.settle f on).has g = if f = g then on.getD (s.has g) else s.has g := by
  cases on <;> simp [settle, has_set]

/-- A flag is what the effect decides, and is kept if it decides nothing. -/
theorem has_apply (s : Status) (e : Effect) (f : Flag) :
    (s.apply e).has f = (e.decides f).getD (s.has f) := by
  simp only [apply, Flag.all, List.foldl_cons, List.foldl_nil, has_settle]
  cases f <;> simp

theorem getLsbD_settle (s : Status) (f : Flag) (on : Option Bool) {i : Nat} (hi : i < 8)
    (h : f.bit ≠ i) : (s.settle f on).bits.getLsbD i = s.bits.getLsbD i := by
  cases on with
  | none => rfl
  | some on => rw [settle, getLsbD_set _ _ _ hi, if_neg h]

/-- A bit that is no flag is kept by every effect. -/
theorem getLsbD_apply (s : Status) (e : Effect) {i : Nat} (hi : i < 8) (h : ∀ f : Flag, f.bit ≠ i) :
    (s.apply e).bits.getLsbD i = s.bits.getLsbD i := by
  simp only [apply, Flag.all, List.foldl_cons, List.foldl_nil, getLsbD_settle _ _ _ hi (h _)]

end Status

end M6502
