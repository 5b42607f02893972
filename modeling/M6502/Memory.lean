import M6502.Word

/-!
# Memory

The flat address space of the processor: 65536 byte cells, one for every word. There is no
mirroring, banking or access control, so reading and writing never fail. Cells are kept page by
page; `Memory.read` is the one view of a memory, and two memories with the same view are equal.

## Main definitions

* `Memory.blank` — every cell holds zero.
* `Memory.read`, `Memory.write` — one cell.
* `Memory.readWord` — two neighbouring cells, low byte first.
* `Memory.load` — a list of bytes, wrapping from the last address to the first.
* `Memory.bytes` — all cells in order.
* `Memory.used` — how many cells hold something other than zero.

## Main statements

* `Memory.read_write` — a write changes the one cell it names.
* `Memory.ext_read` — a memory is determined by what its addresses read.
-/

namespace M6502

/-- The cells of the address space, as 256 pages of 256 bytes. -/
structure Memory where
  pages : Vector (Vector Byte 256) 256
deriving DecidableEq

namespace Memory

def size : Nat := 65536

def blank : Memory := ⟨Vector.replicate 256 (Vector.replicate 256 0)⟩

instance : Inhabited Memory := ⟨blank⟩

def read (m : Memory) (a : Word) : Byte :=
  have page := a.high.isLt
  have offset := a.low.isLt
  m.pages[a.high.toNat][a.low.toNat]

def write (m : Memory) (a : Word) (v : Byte) : Memory :=
  have page := a.high.isLt
  have offset := a.low.isLt
  ⟨m.pages.set a.high.toNat (m.pages[a.high.toNat].set a.low.toNat v)⟩

/-- The word at an address, low byte first. The second address wraps after the last one. -/
def readWord (m : Memory) (a : Word) : Word :=
  .ofBytes (m.read (a + 1)) (m.read a)

/-- Puts bytes at consecutive addresses from `start` on, wrapping after the last address. The
bytes are written in order, so of two that fall on one cell the later stays. -/
def load (m : Memory) (start : Word) : List Byte → Memory
  | [] => m
  | b :: bs => (m.write start b).load (start + 1) bs

/-- The bytes at `count` consecutive addresses from `start` on, wrapping after the last one. -/
def readRange (m : Memory) (start : Word) : Nat → List Byte
  | 0 => []
  | count + 1 => m.read start :: m.readRange (start + 1) count

/-- All cells in the order of their addresses. -/
def bytes (m : Memory) : List Byte := m.pages.toList.flatMap (·.toList)

def used (m : Memory) : Nat := m.bytes.countP (· ≠ 0)

/-! ## Reading back -/

/-- A write changes the cell it names and no other. -/
theorem read_write (m : Memory) (a b : Word) (v : Byte) :
    (m.write a v).read b = if a = b then v else m.read b := by
  simp only [read, write, Vector.getElem_set, BitVec.toNat_inj, Word.eq_iff_high_low]
  by_cases hp : a.high = b.high
  · by_cases ho : a.low = b.low <;> simp [hp, ho, BitVec.toNat_inj]
  · simp [hp]

@[simp] theorem read_write_self (m : Memory) (a : Word) (v : Byte) : (m.write a v).read a = v := by
  simp [read_write]

theorem read_write_of_ne {a b : Word} (m : Memory) (v : Byte) (h : a ≠ b) :
    (m.write a v).read b = m.read b := by
  simp [read_write, h]

/-- Two memories that read the same at every address are equal. -/
@[ext] theorem ext_read {m n : Memory} (h : ∀ a, m.read a = n.read a) : m = n := by
  obtain ⟨p⟩ := m
  obtain ⟨q⟩ := n
  congr 1
  refine Vector.ext fun i hi => Vector.ext fun j hj => ?_
  have e := h (.ofBytes (BitVec.ofNat 8 i) (BitVec.ofNat 8 j))
  simpa [read, Nat.mod_eq_of_lt hi, Nat.mod_eq_of_lt hj] using e

/-! ## Loading -/

@[simp] theorem load_nil (m : Memory) (start : Word) : m.load start [] = m := rfl

@[simp] theorem load_cons (m : Memory) (start : Word) (b : Byte) (bs : List Byte) :
    m.load start (b :: bs) = (m.write start b).load (start + 1) bs := rfl

end Memory

end M6502
