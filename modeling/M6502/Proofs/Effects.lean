import Mathlib.Data.List.Induction
import M6502.Proofs.Arithmetic
import M6502.Proofs.Ownership

/-!
# Effects one after the other

An effect says what the flags that it owns are to be, without a look at the status, and leaves all
others alone. So of effects that are applied one after the other only the last that owns a flag
counts for it, whatever was there before and however little the fields of an effect fit together. A
flag that none of them owns keeps what it had at the start, and so do the bits that are no flags.

## Main definitions

* `Status.after` — the status after some effects.
* `Effect.lastOwner?` — the last effect that owns a flag.

## Main statements

* `Status.settled_after` — a flag is what its last owner decides.
* `Status.decided_by_last_owner` — the same, with the bits that are no flags and the overflow of
  sums.
-/

namespace M6502

namespace Effect

/-- The last of some effects that owns a flag. -/
def lastOwner? (f : Flag) (es : List Effect) : Option Effect :=
  (es.filter (f ∈ ·.owned)).getLast?

variable {f : Flag}

theorem exists_decides_of_mem_owned {e : Effect} (h : f ∈ e.owned) : ∃ on, e.decides f = some on :=
  Option.ne_none_iff_exists'.mp fun hnone => decides_eq_none_iff.mp hnone h

/-- The last effect goes before all others, if it owns the flag. -/
@[simp] theorem lastOwner?_concat (es : List Effect) (e : Effect) :
    lastOwner? f (es ++ [e]) = if f ∈ e.owned then some e else lastOwner? f es := by
  by_cases h : f ∈ e.owned <;> simp [lastOwner?, List.filter_append, h]

/-- Every effect has a result, and owns the two flags that tell of it. -/
theorem lastOwner?_of_result (hf : f ∈ [Flag.negative, .zero]) (es : List Effect) :
    lastOwner? f es = es.getLast? := by
  have hall (e : Effect) : f ∈ e.owned := by
    cases e <;> grind [owned]
  rw [lastOwner?, List.filter_eq_self.mpr fun e _ => decide_eq_true (hall e)]

/-- No effect owns the two flags that are set by instructions alone. -/
theorem lastOwner?_of_mode (hf : f ∈ [Flag.irqDisable, .decimal]) (es : List Effect) :
    lastOwner? f es = none := by
  have hnone (e : Effect) : f ∉ e.owned := by
    cases e <;> grind [owned]
  simp [lastOwner?, hnone]

/-- The overflow flag of a sum tells that the signed sum is out of range, whatever the carry out of
it is said to be. -/
theorem decides_overflow_sum {a b v : Byte} {c : Nat} (carry : Bool) (hc : c ≤ 1)
    (hv : v.toNat = (a.toNat + b.toNat + c) % 256) :
    (sum a b v carry).decides .overflow =
      some (outOfRange (signed a.toNat + signed b.toNat + c)) :=
  congrArg some (overflow_eq hc hv)

end Effect

namespace Status

/-- The status after some effects, one after the other. -/
def after (s : Status) (es : List Effect) : Status := es.foldl apply s

@[simp] theorem after_concat (s : Status) (es : List Effect) (e : Effect) :
    s.after (es ++ [e]) = (s.after es).apply e := by
  simp [after]

/-- Effects leave the bits that are no flags as they are. -/
theorem extraBits_after (s : Status) (es : List Effect) :
    (s.after es).extraBits = s.extraBits := by
  induction es using List.reverseRecOn with
  | nil => rfl
  | append_singleton es e ih => rw [after_concat, extraBits_apply, ih]

/-- A flag is what the last effect that owns it decides, and what it was if there is none. -/
theorem settled_after (s : Status) (es : List Effect) (f : Flag) :
    match Effect.lastOwner? f es with
    | some e => e.decides f = some ((s.after es).has f)
    | none => (s.after es).has f = s.has f := by
  induction es using List.reverseRecOn with
  | nil => rfl
  | append_singleton es e ih =>
    rw [Effect.lastOwner?_concat, after_concat, has_apply]
    by_cases h : f ∈ e.owned
    · obtain ⟨on, hon⟩ := Effect.exists_decides_of_mem_owned h
      rw [if_pos h, hon]
      exact hon
    · rw [if_neg h, Effect.decides_eq_none_iff.mpr h]
      exact ih

/-- A flag after some effects is what the last of them that owns it decides, and what it was at the
start if none does, whatever that was and whatever the fields of the effects are. Every effect owns
the negative and the zero flag, so these two are up to the last effect. None owns the two flags that
are set by instructions alone, and none changes the bits that are no flags. And where the fields of
a sum fit together, with a carry into it or without, the overflow flag that it leaves tells that the
signed sum is out of range. -/
theorem decided_by_last_owner (s : Status) (es : List Effect) :
    let t := s.after es
    (∀ f e, Effect.lastOwner? f es = some e → e.decides f = some (t.has f)) ∧
    (∀ f, Effect.lastOwner? f es = none → t.has f = s.has f) ∧
    (∀ f ∈ [Flag.negative, .zero], Effect.lastOwner? f es = es.getLast?) ∧
    (∀ f ∈ [Flag.irqDisable, .decimal], t.has f = s.has f) ∧
    t.extraBits = s.extraBits ∧
    ∀ a b v carry (c : Nat), c ≤ 1 → v.toNat = (a.toNat + b.toNat + c) % 256 →
      Effect.lastOwner? .overflow es = some (.sum a b v carry) →
      t.has .overflow = outOfRange (signed a.toNat + signed b.toNat + c) := by
  intro t
  have howner (f e) (h : Effect.lastOwner? f es = some e) : e.decides f = some (t.has f) := by
    have hsettled := s.settled_after es f
    rwa [h] at hsettled
  have hkept (f) (h : Effect.lastOwner? f es = none) : t.has f = s.has f := by
    have hsettled := s.settled_after es f
    rwa [h] at hsettled
  refine ⟨howner, hkept, fun f hf => Effect.lastOwner?_of_result hf es,
    fun f hf => hkept f (Effect.lastOwner?_of_mode hf es), s.extraBits_after es, ?_⟩
  intro a b v carry c hc hv hlast
  have hdecides := Effect.decides_overflow_sum carry hc hv
  rw [howner _ _ hlast] at hdecides
  exact Option.some.inj hdecides

/-- A sum whose carry does not fit its terms, between effects that own other flags, on a status with
every bit set. -/
theorem decided_by_last_owner_of_sum :
    let es : List Effect := [.test 0x01 0x00, .sum 0x7F 0x00 0x80 true, .difference 0x00 0x01,
      .value 0x00]
    let t := (⟨0xFF⟩ : Status).after es
    t.has .negative = false ∧ t.has .zero = true ∧ t.has .carry = false ∧ t.has .overflow = true ∧
      t.has .irqDisable = true ∧ t.has .decimal = true ∧ t.extraBits = 0x30 := by
  intro es t
  obtain ⟨howner, -, hlast, hfree, hextra, hoverflow⟩ :=
    (⟨0xFF⟩ : Status).decided_by_last_owner es
  have hnegative := howner .negative (.value 0x00) ((hlast _ (.head _)).trans rfl)
  have hzero := howner .zero (.value 0x00) ((hlast _ (.tail _ (.head _))).trans rfl)
  have hcarry := howner .carry (.difference 0x00 0x01) (by decide)
  have hsum := hoverflow 0x7F 0x00 0x80 true 1 (by decide) (by decide) (by decide)
  exact ⟨(Option.some.inj hnegative).symm, (Option.some.inj hzero).symm,
    (Option.some.inj hcarry).symm, hsum.trans (by decide), hfree _ (.head _),
    hfree _ (.tail _ (.head _)), hextra.trans (by decide)⟩

end Status

end M6502
