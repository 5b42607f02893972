import Mathlib.Data.List.Nodup
import M6502.Config.Json

/-!
# What describes a configuration

The values that describe a configuration, said without a reader. A choice that is given has to be
spelled in one of two ways, a choice that is not given is the default, and an object or an array can
give the two choices. The reader accepts these values and no others. What it makes of an object is a
matter of the members with the two keys that count, in whatever order they stand and whatever else
stands among them, and an array comes to the same as the object with its items under these keys.

An object is kept as it is written, so a key may stand in it more than once. A key that counts may
not; of an object with distinct keys that says nothing.

## Main definitions

* `Json.Spells` — a value spells a name.
* `Json.Settles` — what is made of a choice by the value that is given for it.
* `Config.Describes` — a value describes a configuration.

## Main statements

* `Config.ofJson?_eq_some_iff` — the reader accepts what describes a configuration, and that alone.
* `Config.ofJson?_object_congr` — only the members with the two keys count, in any order.
* `Config.ofJson?_array` — an array is read as the object with its items in order.
* `Config.readings_agree` — the same together, with what is written read back.
-/

namespace M6502

namespace Json

variable {α : Type} {key : α → String} {default a : α}

/-- A value spells the name of `a`: it is the name, or an object with the name as its only key and
nothing under it. -/
def Spells (key : α → String) (a : α) (v : Json) : Prop :=
  v = .string (key a) ∨ v = .object [(key a, .null)]

/-- What is made of a choice by the value that is given for it, if one is. -/
def Settles (key : α → String) (default a : α) : Option Json → Prop
  | none => a = default
  | some v => Spells key a v

theorem exists_settles_iff (default : α) {given : Option Json} :
    (∃ a, Settles key default a given) ↔ ∀ v, given = some v → ∃ a, Spells key a v := by
  cases given <;> simp [Settles]

/-! ## Reading names -/

theorem symbol?_eq_some_iff {v : Json} {s : String} :
    v.symbol? = some s ↔ v = .string s ∨ v = .object [(s, .null)] := by
  constructor
  · intro h
    unfold symbol? at h
    split at h
    · exact .inl (congrArg string (Option.some.inj h))
    · cases h
      exact .inr rfl
    · cases h
  · rintro (rfl | rfl) <;> rfl

/-- A reader that finds among some values the one with a given name reads what spells that name. -/
theorem bind_symbol?_eq_some_iff {all : List α}
    (hall : ∀ a, all.find? (key · == key a) = some a) {v : Json} :
    (v.symbol?.bind fun name => all.find? (key · == name)) = some a ↔ Spells key a v := by
  have hname (name : String) : all.find? (key · == name) = some a ↔ key a = name :=
    ⟨fun h => by simpa using List.find?_some h, fun h => h ▸ hall a⟩
  simp only [Option.bind_eq_some_iff, hname, exists_eq_right', symbol?_eq_some_iff, Spells]

/-! ## Reading choices -/

variable {read : Json → Option α}

theorem choice?_eq_some_iff (hread : ∀ {v a}, read v = some a ↔ Spells key a v)
    {given : List Json} :
    choice? default read given = some a ↔
      given.length ≤ 1 ∧ Settles key default a given.head? := by
  match given with
  | [] => simp [choice?, Settles, eq_comm]
  | [v] => simp [choice?, Settles, hread]
  | v :: w :: rest => simp [choice?]

/-- The order of the values does not matter, since there may be no more than one. -/
theorem choice?_perm {given others : List Json} (h : given.Perm others) :
    choice? default read given = choice? default read others := by
  match given with
  | [] => rw [h.nil_eq]
  | [v] => rw [h.singleton_eq]
  | v :: w :: rest =>
    -- both are refused, whatever the values are
    match others with
    | [] | [_] => simpa using h.length_eq
    | _ :: _ :: _ => rfl

/-! ## Entries -/

variable {members others : List (String × Json)} {name : String}

theorem mem_entries {v : Json} : v ∈ entries members name ↔ (name, v) ∈ members := by
  simp [entries]

theorem length_entries :
    (entries members name).length = (members.map Prod.fst).count name := by
  rw [entries, List.length_map, ← List.countP_eq_length_filter, List.count, List.countP_map]
  rfl

theorem head?_entries : (entries members name).head? = members.lookup name := by
  induction members with
  | nil => rfl
  | cons m members ih =>
    obtain ⟨k, v⟩ := m
    by_cases h : k = name
    · simp [entries, h]
    · have hne : (name == k) = false := beq_eq_false_iff_ne.mpr (Ne.symm h)
      simpa [entries, h, List.lookup_cons, hne] using ih

theorem entries_perm (h : members.Perm others) :
    (entries members name).Perm (entries others name) :=
  (h.filter _).map _

/-- In an object in which a key does not stand twice, a member with that key is the one looked
up. -/
theorem lookup_eq_some_iff_mem (h : (members.map Prod.fst).count name ≤ 1) {v : Json} :
    members.lookup name = some v ↔ (name, v) ∈ members := by
  rw [← length_entries] at h
  rw [← head?_entries, ← mem_entries]
  match entries members name, h with
  | [], _ => simp
  | [w], _ => simp [eq_comm]

theorem lookup_eq_none_iff_notMem : members.lookup name = none ↔ ∀ v, (name, v) ∉ members := by
  simp [← head?_entries, List.eq_nil_iff_forall_not_mem, mem_entries]

end Json

theorem IllegalPolicy.ofJson?_eq_some_iff {v : Json} {p : IllegalPolicy} :
    ofJson? v = some p ↔ Json.Spells key p v :=
  Json.bind_symbol?_eq_some_iff ofKey?_key

theorem ByteOrder.ofJson?_eq_some_iff {v : Json} {o : ByteOrder} :
    ofJson? v = some o ↔ Json.Spells key o v :=
  Json.bind_symbol?_eq_some_iff ofKey?_key

namespace Config

/-- A value describes a configuration: it gives each of the two choices at most once, as an object
under their keys or as an array in order, and what is given settles them. -/
def Describes : Json → Config → Prop
  | .object members, c =>
    ((members.map Prod.fst).count policyKey ≤ 1 ∧
      Json.Settles IllegalPolicy.key .fault c.policy (members.lookup policyKey)) ∧
    ((members.map Prod.fst).count orderKey ≤ 1 ∧
      Json.Settles ByteOrder.key .highFirst c.order (members.lookup orderKey))
  | .array items, c =>
    items.length ≤ 2 ∧
      Json.Settles IllegalPolicy.key .fault c.policy items[0]? ∧
      Json.Settles ByteOrder.key .highFirst c.order items[1]?
  | _, _ => False

/-- A key that counts. -/
def isKey (name : String) : Bool := name == policyKey || name == orderKey

variable {c : Config} {members others : List (String × Json)} {items : List Json}

/-! ## What the reader accepts -/

theorem ofChoices?_eq_some_iff {policies orders : List Json} :
    ofChoices? policies orders = some c ↔
      (policies.length ≤ 1 ∧ Json.Settles IllegalPolicy.key .fault c.policy policies.head?) ∧
      (orders.length ≤ 1 ∧ Json.Settles ByteOrder.key .highFirst c.order orders.head?) := by
  rw [← Json.choice?_eq_some_iff IllegalPolicy.ofJson?_eq_some_iff,
    ← Json.choice?_eq_some_iff ByteOrder.ofJson?_eq_some_iff]
  obtain ⟨policy, order⟩ := c
  simp [ofChoices?, standard, Option.bind_eq_some_iff]

/-- The reader accepts what describes a configuration, and that alone. -/
theorem ofJson?_eq_some_iff {v : Json} : ofJson? v = some c ↔ Describes v c := by
  cases v with
  | object members =>
    rw [ofJson?, ofChoices?_eq_some_iff, Json.length_entries, Json.length_entries,
      Json.head?_entries, Json.head?_entries]
    rfl
  | array items =>
    have hfirst : (items.take 1).length ≤ 1 := List.length_take_le 1 items
    have hsecond : (items.drop 1).length ≤ 1 ↔ items.length ≤ 2 := by
      rw [List.length_drop]
      omega
    have hhead : (items.take 1).head? = items[0]? := by
      rw [List.head?_take, if_neg Nat.one_ne_zero, List.head?_eq_getElem?]
    rw [ofJson?, ofChoices?_eq_some_iff, hhead, hsecond, List.head?_drop]
    constructor
    · rintro ⟨⟨-, hp⟩, hlength, ho⟩
      exact ⟨hlength, hp, ho⟩
    · rintro ⟨hlength, hp, ho⟩
      exact ⟨⟨hfirst, hp⟩, hlength, ho⟩
  | null | bool b | number m e | string s => exact iff_of_false (by rintro ⟨⟩) id

/-- An object with distinct keys is accepted exactly if what it gives for each choice spells one. -/
theorem exists_ofJson?_object_iff (h : (members.map Prod.fst).Nodup) :
    (∃ c, ofJson? (.object members) = some c) ↔
      (∀ v, (policyKey, v) ∈ members → ∃ p, Json.Spells IllegalPolicy.key p v) ∧
      ∀ v, (orderKey, v) ∈ members → ∃ o, Json.Spells ByteOrder.key o v := by
  have hcount (name : String) : (members.map Prod.fst).count name ≤ 1 :=
    List.nodup_iff_count_le_one.mp h name
  simp only [← Json.lookup_eq_some_iff_mem (hcount _),
    ← Json.exists_settles_iff IllegalPolicy.fault, ← Json.exists_settles_iff ByteOrder.highFirst,
    ofJson?_eq_some_iff]
  constructor
  · rintro ⟨c, ⟨-, hp⟩, -, ho⟩
    exact ⟨⟨_, hp⟩, _, ho⟩
  · rintro ⟨⟨p, hp⟩, o, ho⟩
    exact ⟨⟨p, o⟩, ⟨hcount _, hp⟩, hcount _, ho⟩

/-! ## What does not matter -/

theorem entries_filter_isKey (members : List (String × Json)) {name : String} (h : isKey name) :
    Json.entries (members.filter (isKey ·.1)) name = Json.entries members name := by
  rw [Json.entries, Json.entries, List.filter_filter]
  refine congrArg (List.map _) (List.filter_congr fun m _ => ?_)
  by_cases hm : m.1 = name <;> simp [hm, h]

/-- Only the members with the two keys count, and their order does not. -/
theorem ofJson?_object_congr
    (h : (members.filter (isKey ·.1)).Perm (others.filter (isKey ·.1))) :
    ofJson? (.object members) = ofJson? (.object others) := by
  have hentries (name : String) (hname : isKey name) :
      (Json.entries members name).Perm (Json.entries others name) := by
    rw [← entries_filter_isKey members hname, ← entries_filter_isKey others hname]
    exact Json.entries_perm h
  rw [ofJson?, ofJson?, ofChoices?, ofChoices?, Json.choice?_perm (hentries policyKey (by decide)),
    Json.choice?_perm (hentries orderKey (by decide))]

/-- An array is read as the object in which its items stand under the two keys, in order. -/
theorem ofJson?_array (h : items.length ≤ 2) :
    ofJson? (.array items) = ofJson? (.object ([policyKey, orderKey].zip items)) := by
  match items with
  | [] | [_] | [_, _] => rfl

theorem filter_isKey_zip (items : List Json) :
    ([policyKey, orderKey].zip items).filter (isKey ·.1) = [policyKey, orderKey].zip items := by
  match items with
  | [] | [_] | _ :: _ :: _ => rfl

/-! ## Together -/

/-- A choice for which an object has no member is the default. -/
theorem eq_default_of_notMem (h : ofJson? (.object members) = some c) :
    ((∀ v, (policyKey, v) ∉ members) → c.policy = .fault) ∧
    ((∀ v, (orderKey, v) ∉ members) → c.order = .highFirst) := by
  obtain ⟨⟨-, hp⟩, -, ho⟩ := ofJson?_eq_some_iff.mp h
  constructor
  · intro hnone
    rwa [Json.lookup_eq_none_iff_notMem.mpr hnone] at hp
  · intro hnone
    rwa [Json.lookup_eq_none_iff_notMem.mpr hnone] at ho

/-- Reading a configuration, over all values. The reader accepts what describes a configuration and
nothing else; of an object with distinct keys it asks that what stands under the two keys that
count, if something does, spells a choice. A choice that is not given is the default. Members with
other keys and the order of members do not matter. An array is read as an object with the same
values under the two keys. And what is written of a configuration is read back, also after one
choice is replaced. -/
theorem readings_agree :
    (∀ v c, ofJson? v = some c ↔ Describes v c) ∧
    (∀ members : List (String × Json), (members.map Prod.fst).Nodup →
      ((∃ c, ofJson? (.object members) = some c) ↔
        (∀ v, (policyKey, v) ∈ members → ∃ p, Json.Spells IllegalPolicy.key p v) ∧
        ∀ v, (orderKey, v) ∈ members → ∃ o, Json.Spells ByteOrder.key o v)) ∧
    (∀ members c, ofJson? (.object members) = some c →
      ((∀ v, (policyKey, v) ∉ members) → c.policy = .fault) ∧
      ((∀ v, (orderKey, v) ∉ members) → c.order = .highFirst)) ∧
    (∀ members others : List (String × Json),
      (members.filter (isKey ·.1)).Perm (others.filter (isKey ·.1)) →
      ofJson? (.object members) = ofJson? (.object others)) ∧
    (∀ items members, items.length ≤ 2 →
      (members.filter (isKey ·.1)).Perm ([policyKey, orderKey].zip items) →
      ofJson? (.array items) = ofJson? (.object members)) ∧
    ∀ c, ofJson? (toJson c) = some c ∧
      (∀ p, ofJson? (toJson (c.withPolicy p)) = some ⟨p, c.order⟩) ∧
      ∀ o, ofJson? (toJson (c.withOrder o)) = some ⟨c.policy, o⟩ := by
  refine ⟨fun _ _ => ofJson?_eq_some_iff, fun _ h => exists_ofJson?_object_iff h,
    fun _ _ h => eq_default_of_notMem h, fun _ _ h => ofJson?_object_congr h, ?array,
    fun c => ⟨ofJson?_toJson c, fun p => ofJson?_toJson (c.withPolicy p),
      fun o => ofJson?_toJson (c.withOrder o)⟩⟩
  case array =>
    intro items members hlength hsame
    rw [ofJson?_array hlength]
    refine ofJson?_object_congr ?_
    rw [filter_isKey_zip]
    exact hsame.symm

/-- The configuration of real hardware in both forms, with one name under a key and a member that
does not count; and an object that is refused for what stands under one key. -/
theorem readings_agree_on_hardware :
    let policy := Json.string "nop"
    let order := Json.object [("low_first", .null)]
    let members := [("operand_order", order), ("speed", .null), ("illegal_opcodes", policy)]
    ofJson? (.array [policy, order]) = ofJson? (.object members) ∧
      ofJson? (.object members) = some hardware ∧
      ¬∃ c, ofJson? (.object (("illegal_opcodes", .null) :: members.take 2)) = some c := by
  intro policy order members
  obtain ⟨hdescribes, hdistinct, -, -, harray, -⟩ := readings_agree
  refine ⟨harray _ _ (Nat.le_refl 2) (.swap _ _ _), (hdescribes _ _).mpr ?_, ?_⟩
  · exact ⟨⟨by decide, .inl rfl⟩, by decide, .inr rfl⟩
  · rw [hdistinct _ (by decide)]
    rintro ⟨hpolicy, -⟩
    obtain ⟨p, hp⟩ := hpolicy .null (.head _)
    cases hp with
    | inl h => cases h
    | inr h => cases h

end Config

end M6502
