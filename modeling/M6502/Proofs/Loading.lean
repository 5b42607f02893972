import Mathlib.Data.List.Induction
import Mathlib.Order.Bounds.Basic
import M6502.Memory

/-!
# Loading bytes

Loading puts a list of bytes at consecutive addresses, one after the other, and goes on at the first
address after the last. A list that is longer than the memory comes round to cells that it has
already written. So what a cell holds afterwards is a matter of the last byte that fell on it, and
everything else about loading follows from that.

## Main definitions

* `Memory.landings` — the indices of the bytes that fall on a cell.

## Main statements

* `Memory.load_append` — the bytes of two lists are loaded one list after the other.
* `Memory.read_load` — a cell holds the last byte that fell on it, or what it held before.
* `Memory.readRange_load` — what was loaded can be read back.
* `Memory.load_comm` — lists that fall on different cells can be loaded in either order.
-/

namespace M6502

namespace Memory

/-- The indices, among `count` bytes that are loaded from `start` on, of those that fall on the cell
`a`. -/
def landings (start : Word) (count : Nat) (a : Word) : Set Nat :=
  {i | i < count ∧ (start.toNat + i) % size = a.toNat}

/-! ## Where bytes fall -/

theorem add_one_add_ofNat (start : Word) (n : Nat) :
    start + 1 + .ofNat 16 n = start + .ofNat 16 (n + 1) := by
  rw [BitVec.add_assoc, Nat.add_comm n 1, BitVec.ofNat_add]
  rfl

theorem toNat_add_ofNat (start : Word) (i : Nat) :
    (start + .ofNat 16 i).toNat = (start.toNat + i) % size := by
  rw [BitVec.toNat_add, BitVec.toNat_ofNat, size]
  omega

theorem landings_zero (start a : Word) : landings start 0 a = ∅ :=
  Set.eq_empty_of_forall_notMem fun _ h => Nat.not_lt_zero _ h.1

/-- One more byte that falls elsewhere adds no index. -/
theorem landings_succ_of_ne {start a : Word} {n : Nat} (h : start + .ofNat 16 n ≠ a) :
    landings start (n + 1) a = landings start n a := by
  rw [Ne, ← BitVec.toNat_inj, toNat_add_ofNat] at h
  ext i
  constructor
  · rintro ⟨hi, ha⟩
    have hne : i ≠ n := by
      rintro rfl
      exact h ha
    exact ⟨by omega, ha⟩
  · rintro ⟨hi, ha⟩
    exact ⟨by omega, ha⟩

/-- One more byte that falls on the cell is the last to do so. -/
theorem isGreatest_landings_succ {start a : Word} {n : Nat} (h : start + .ofNat 16 n = a) :
    IsGreatest (landings start (n + 1) a) n := by
  constructor
  · refine ⟨Nat.lt_succ_self n, ?_⟩
    rw [← h, toNat_add_ofNat]
  · rintro i ⟨hi, -⟩
    exact Nat.le_of_lt_succ hi

/-! ## What a cell holds -/

/-- The bytes of two lists are loaded one list after the other. -/
theorem load_append (m : Memory) (start : Word) (xs ys : List Byte) :
    m.load start (xs ++ ys) = (m.load start xs).load (start + .ofNat 16 xs.length) ys := by
  induction xs generalizing m start with
  | nil =>
    rw [List.nil_append, load_nil, List.length_nil]
    exact congrArg (m.load · ys) (BitVec.add_zero start).symm
  | cons x xs ih =>
    rw [List.cons_append, load_cons, load_cons, ih, add_one_add_ofNat, List.length_cons]

/-- A cell holds the last of the bytes that fell on it, and what it held before if none did. -/
theorem read_load (m : Memory) (start : Word) (bs : List Byte) (a : Word) :
    (∃ i, IsGreatest (landings start bs.length a) i ∧ bs[i]? = some ((m.load start bs).read a)) ∨
      (landings start bs.length a = ∅ ∧ (m.load start bs).read a = m.read a) := by
  induction bs using List.reverseRecOn with
  | nil => exact .inr ⟨landings_zero start a, rfl⟩
  | append_singleton bs b ih =>
    rw [load_append, load_cons, load_nil, List.length_append, List.length_singleton, read_write]
    by_cases h : start + .ofNat 16 bs.length = a
    · refine .inl ⟨bs.length, isGreatest_landings_succ h, ?_⟩
      rw [if_pos h, List.getElem?_concat_length]
    · rw [if_neg h, landings_succ_of_ne h]
      obtain ⟨i, hi, hread⟩ | hnone := ih
      · refine .inl ⟨i, hi, ?_⟩
        rw [List.getElem?_append_left hi.1.1, hread]
      · exact .inr hnone

theorem read_load_of_landings_eq_empty {m : Memory} {start : Word} {bs : List Byte} {a : Word}
    (h : landings start bs.length a = ∅) : (m.load start bs).read a = m.read a := by
  obtain ⟨i, hi, -⟩ | ⟨-, hread⟩ := m.read_load start bs a
  · rw [h] at hi
    exact absurd hi.1 (Set.notMem_empty i)
  · exact hread

/-- A cell that a byte falls on holds the same afterwards, whatever the memory was before. -/
theorem read_load_congr {start : Word} {bs : List Byte} {a : Word}
    (h : landings start bs.length a ≠ ∅) (m n : Memory) :
    (m.load start bs).read a = (n.load start bs).read a := by
  obtain ⟨i, hi, hm⟩ | ⟨hnone, -⟩ := m.read_load start bs a
  · obtain ⟨j, hj, hn⟩ | ⟨hnone, -⟩ := n.read_load start bs a
    · rw [hi.unique hj, hn] at hm
      exact (Option.some.inj hm).symm
    · exact absurd hnone h
  · exact absurd hnone h

/-! ## Reading back -/

theorem length_readRange (m : Memory) (start : Word) (count : Nat) :
    (m.readRange start count).length = count := by
  induction count generalizing start with
  | zero => rfl
  | succ count ih => rw [readRange, List.length_cons, ih]

theorem getElem?_readRange (m : Memory) (start : Word) {i count : Nat} (h : i < count) :
    (m.readRange start count)[i]? = some (m.read (start + .ofNat 16 i)) := by
  induction count generalizing start i with
  | zero => omega
  | succ count ih =>
    cases i with
    | zero => exact congrArg (some <| m.read ·) (BitVec.add_zero start).symm
    | succ i =>
      rw [readRange, List.getElem?_cons_succ, ih _ (by omega), add_one_add_ofNat]

/-- Of no more bytes than there are cells each falls on a cell of its own. -/
theorem read_load_of_lt (m : Memory) (start : Word) {bs : List Byte} (h : bs.length ≤ size)
    {i : Nat} (hi : i < bs.length) :
    (m.load start bs).read (start + .ofNat 16 i) = bs[i] := by
  have hlands : i ∈ landings start bs.length (start + .ofNat 16 i) :=
    ⟨hi, (toNat_add_ofNat start i).symm⟩
  obtain ⟨j, ⟨⟨hj, hsame⟩, -⟩, hread⟩ | ⟨hnone, -⟩ := m.read_load start bs (start + .ofNat 16 i)
  · obtain rfl : j = i := by
      rw [toNat_add_ofNat] at hsame
      rw [size] at h hsame
      omega
    exact Option.some.inj (hread.symm.trans (List.getElem?_eq_getElem hi))
  · rw [hnone] at hlands
    exact absurd hlands (Set.notMem_empty i)

/-- No more bytes than there are cells can be read back. -/
theorem readRange_load (m : Memory) (start : Word) {bs : List Byte} (h : bs.length ≤ size) :
    (m.load start bs).readRange start bs.length = bs := by
  refine List.ext_getElem? fun i => ?_
  by_cases hi : i < bs.length
  · rw [getElem?_readRange _ _ hi, m.read_load_of_lt start h hi, List.getElem?_eq_getElem hi]
  · rw [List.getElem?_eq_none, List.getElem?_eq_none]
    · omega
    · rw [length_readRange]
      omega

/-! ## Two lists -/

/-- Lists of which no cell is reached by both can be loaded in either order. -/
theorem load_comm (m : Memory) {s t : Word} {xs ys : List Byte}
    (h : ∀ i < xs.length, ∀ j < ys.length, (s.toNat + i) % size ≠ (t.toNat + j) % size) :
    (m.load s xs).load t ys = (m.load t ys).load s xs := by
  refine ext_read fun a => ?_
  by_cases hx : landings s xs.length a = ∅
  · rw [read_load_of_landings_eq_empty hx]
    by_cases hy : landings t ys.length a = ∅
    · rw [read_load_of_landings_eq_empty hy, read_load_of_landings_eq_empty hy,
        read_load_of_landings_eq_empty hx]
    · exact read_load_congr hy _ _
  · have hy : landings t ys.length a = ∅ := by
      obtain ⟨i, hi, hia⟩ := Set.nonempty_iff_ne_empty.mpr hx
      refine Set.eq_empty_of_forall_notMem ?_
      rintro j ⟨hj, hja⟩
      exact h i hi j hj (hia.trans hja.symm)
    rw [read_load_of_landings_eq_empty hy]
    exact read_load_congr hx _ _

/-- What loading a list of any length makes of the memory. Each cell holds the last of the bytes
that fell on it, or what it held before if none did. So what follows the list is loaded from where
it ended; what was loaded is read back if it has no more bytes than there are cells; and two lists
that fall on different cells can be loaded in either order. -/
theorem load_leaves_last_bytes (m : Memory) (start : Word) (bs : List Byte) :
    (∀ a,
      (∃ i, IsGreatest (landings start bs.length a) i ∧
        bs[i]? = some ((m.load start bs).read a)) ∨
      (landings start bs.length a = ∅ ∧ (m.load start bs).read a = m.read a)) ∧
    (∀ ys, m.load start (bs ++ ys) =
      (m.load start bs).load (start + .ofNat 16 bs.length) ys) ∧
    (bs.length ≤ size → (m.load start bs).readRange start bs.length = bs) ∧
    ∀ t ys,
      (∀ i < bs.length, ∀ j < ys.length, (start.toNat + i) % size ≠ (t.toNat + j) % size) →
      (m.load start bs).load t ys = (m.load t ys).load start bs :=
  ⟨m.read_load start bs, m.load_append start bs, m.readRange_load start,
    fun _ _ h => m.load_comm h⟩

/-- One byte more than there are cells, so that the last falls on the first, and two bytes that
wrap after the last address. -/
theorem load_leaves_last_bytes_of_wrapped_lists :
    let bs := List.replicate 65536 (0x11 : Byte) ++ [0x22]
    let m := blank.load 0xFFFF [0x33, 0x44]
    (m.load 0x1234 bs).read 0x1234 = 0x22 ∧ m.readRange 0xFFFF 2 = [0x33, 0x44] ∧
      m.load 0x0001 [0x55] = (blank.load 0x0001 [0x55]).load 0xFFFF [0x33, 0x44] := by
  intro bs m
  obtain ⟨hcells, -⟩ := m.load_leaves_last_bytes 0x1234 bs
  obtain ⟨-, -, hback, hcomm⟩ := blank.load_leaves_last_bytes 0xFFFF [0x33, 0x44]
  refine ⟨?_, hback (by decide), hcomm 0x0001 [0x55] (by decide)⟩
  have hlength : bs.length = 65537 := by
    rw [List.length_append, List.length_replicate, List.length_singleton]
  have hlast : 65536 ∈ landings 0x1234 bs.length 0x1234 := by
    rw [hlength]
    exact ⟨by decide, by decide⟩
  obtain ⟨i, ⟨⟨hi, -⟩, hmax⟩, hread⟩ | ⟨hnone, -⟩ := hcells 0x1234
  · obtain rfl : i = 65536 := by
      have := hmax hlast
      omega
    have hbyte : bs[65536]? = some 0x22 := by
      rw [List.getElem?_append_right (by rw [List.length_replicate]), List.length_replicate]
      rfl
    rw [hbyte] at hread
    exact (Option.some.inj hread).symm
  · rw [hnone] at hlast
    exact absurd hlast (Set.notMem_empty _)

end Memory

end M6502
