import M6502.Machine

/-!
# Page one as a stack

Page one and the stack pointer make a page of 256 cells with a pointer that wraps. What a program
does to it is a list of accesses, each with the offset of its cell and with its byte. Whatever the
accesses are, the pointer tells how many more bytes were pushed than pulled, and a pull returns what
was pushed last to its cell. The page is a stack in the ordinary sense as long as it neither runs
empty nor holds more than 256 bytes.

## Main definitions

* `StackAccess`, `StackAccess.depth`, `StackAccess.lastPushed` — accesses, how many more bytes they
  push than pull, and the byte they pushed last to a cell.
* `StackAccess.replay` — the same accesses on an ordinary stack of bytes.
* `StackPage`, `StackPage.Path` — a page, and that accesses lead from one page to another.
* `StackPage.Holds` — the cells above the pointer hold the bytes of a stack.

## Main statements

* `StackPage.Path.offset_eq` — the pointer counts what was pushed and pulled.
* `StackPage.Path.value_eq` — a pull returns the byte pushed last to its cell.
* `StackPage.Path.replay_eq` — within its bounds a page is an ordinary stack.
-/

namespace M6502

/-- A byte that is pushed to the cell at an offset of page one, or pulled from it. -/
inductive StackAccess where
  | push (offset value : Byte)
  | pull (offset value : Byte)
deriving DecidableEq, Repr

namespace StackAccess

/-- The byte that an access pushes to the cell at an offset. -/
def pushedTo? (o : Byte) : StackAccess → Option Byte
  | push offset value => if offset = o then some value else none
  | pull .. => none

def pulled? : StackAccess → Option Byte
  | push .. => none
  | pull _ value => some value

def isPush : StackAccess → Bool
  | push .. => true
  | pull .. => false

/-- How many more bytes are pushed than pulled. -/
def depth : List StackAccess → Int
  | [] => 0
  | push .. :: as => depth as + 1
  | pull .. :: as => depth as - 1

/-- The byte that is pushed last to the cell at an offset, if any is. -/
def lastPushed (as : List StackAccess) (o : Byte) : Option Byte :=
  as.reverse.findSome? (pushedTo? o)

/-- Carries out accesses on a stack of bytes, its top first. It fails at a pull that does not return
the byte on the top, and at a pull from an empty stack. -/
def replay : List StackAccess → List Byte → Option (List Byte)
  | [], stack => some stack
  | push _ value :: as, stack => replay as (value :: stack)
  | pull _ value :: as, top :: stack => if value = top then replay as stack else none
  | pull .. :: _, [] => none

/-- Accesses of one direction: only pushes, or only pulls. -/
def oneWay (as : List StackAccess) : Bool := as.all isPush || as.all (!·.isPush)

theorem depth_append (as bs : List StackAccess) : depth (as ++ bs) = depth as + depth bs := by
  induction as with
  | nil => simp [depth]
  | cons a as ih => cases a <;> simp only [List.cons_append, depth, ih] <;> omega

theorem replay_append (as bs : List StackAccess) (stack : List Byte) :
    replay (as ++ bs) stack = (replay as stack).bind (replay bs) := by
  induction as generalizing stack with
  | nil => rfl
  | cons a as ih =>
    cases a with
    | push offset value => exact ih (value :: stack)
    | pull offset value =>
      cases stack with
      | nil => rfl
      | cons top stack =>
        simp only [List.cons_append, replay]
        split
        · exact ih stack
        · rfl

theorem lastPushed_cons (a : StackAccess) (as : List StackAccess) (o : Byte) :
    lastPushed (a :: as) o = (lastPushed as o).or (a.pushedTo? o) := by
  simp [lastPushed, List.findSome?_append]

theorem depth_nonneg_of_all_push {as : List StackAccess} (h : as.all isPush = true) :
    0 ≤ depth as := by
  induction as with
  | nil => exact Int.le_refl 0
  | cons a as ih =>
    rw [List.all_cons, Bool.and_eq_true] at h
    have hdepth := ih h.2
    cases a with
    | push offset value =>
      simp only [depth]
      omega
    | pull offset value => cases h.1

theorem depth_nonpos_of_all_pull {as : List StackAccess} (h : as.all (!·.isPush) = true) :
    depth as ≤ 0 := by
  induction as with
  | nil => exact Int.le_refl 0
  | cons a as ih =>
    rw [List.all_cons, Bool.and_eq_true] at h
    have hdepth := ih h.2
    cases a with
    | push offset value => cases h.1
    | pull offset value =>
      simp only [depth]
      omega

/-- After a push, accesses of one direction only push. -/
theorem oneWay_of_push {o v : Byte} {as : List StackAccess} (h : oneWay (push o v :: as) = true) :
    oneWay as = true ∧ 0 ≤ depth as := by
  have hall : as.all isPush = true := by simpa [oneWay, isPush] using h
  exact ⟨by rw [oneWay, hall, Bool.true_or], depth_nonneg_of_all_push hall⟩

/-- After a pull, accesses of one direction only pull. -/
theorem oneWay_of_pull {o v : Byte} {as : List StackAccess} (h : oneWay (pull o v :: as) = true) :
    oneWay as = true ∧ depth as ≤ 0 := by
  have hall : as.all (!·.isPush) = true := by simpa [oneWay, isPush] using h
  exact ⟨by rw [oneWay, hall, Bool.or_true], depth_nonpos_of_all_pull hall⟩

end StackAccess

/-! ## Pages -/

/-- The cells of page one, by their offsets, and the stack pointer. -/
structure StackPage where
  pointer : Word
  cells : Byte → Byte

namespace StackPage

open StackAccess

/-- The offset of the cell that the pointer selects. -/
def offset (p : StackPage) : Byte := p.pointer.low

def push (p : StackPage) (v : Byte) : StackPage where
  pointer := stackCellAt (p.offset - 1)
  cells o := if o = p.offset then v else p.cells o

def pull (p : StackPage) : StackPage := { p with pointer := stackCellAt (p.offset + 1) }

/-- Accesses lead from one page to another: each is to the cell that the pointer selects by then,
and a pull returns what that cell holds. -/
inductive Path : StackPage → List StackAccess → StackPage → Prop
  | nil (p : StackPage) : Path p [] p
  | push {p q : StackPage} {o v : Byte} {as : List StackAccess} (ho : o = p.offset)
      (h : Path (p.push v) as q) : Path p (.push o v :: as) q
  | pull {p q : StackPage} {o v : Byte} {as : List StackAccess} (ho : o = p.offset + 1)
      (hv : v = p.cells o) (h : Path p.pull as q) : Path p (.pull o v :: as) q

@[simp] theorem offset_push (p : StackPage) (v : Byte) : (p.push v).offset = p.offset - 1 := by
  simp [push, offset, stackCellAt]

@[simp] theorem offset_pull (p : StackPage) : p.pull.offset = p.offset + 1 := by
  simp [pull, offset, stackCellAt]

theorem offset_pull_add_one (p : StackPage) : p.pull.offset + 1 = p.offset + 2 := by
  rw [offset_pull]
  bv_omega

theorem offset_pull_pull_add_one (p : StackPage) : p.pull.pull.offset + 1 = p.offset + 3 := by
  rw [offset_pull, offset_pull]
  bv_omega

namespace Path

variable {p q r : StackPage} {as bs : List StackAccess}

theorem append (h : Path p as q) (g : Path q bs r) : Path p (as ++ bs) r := by
  induction h with
  | nil p => exact g
  | push ho _ ih => exact .push ho (ih g)
  | pull ho hv _ ih => exact .pull ho hv (ih g)

theorem exists_of_append (h : Path p (as ++ bs) r) : ∃ q, Path p as q ∧ Path q bs r := by
  induction as generalizing p with
  | nil => exact ⟨p, .nil p, h⟩
  | cons a as ih =>
    cases h with
    | push ho h =>
      obtain ⟨q, hq, hr⟩ := ih h
      exact ⟨q, .push ho hq, hr⟩
    | pull ho hv h =>
      obtain ⟨q, hq, hr⟩ := ih h
      exact ⟨q, .pull ho hv hq, hr⟩

/-! ### The pointer -/

/-- The pointer counts down what is pushed and up what is pulled, and wraps. -/
theorem offset_eq (h : Path p as q) :
    (q.offset.toNat : Int) = (p.offset.toNat - depth as) % 256 := by
  induction h with
  | nil p =>
    have hp := p.offset.isLt
    simp only [depth]
    omega
  | @push p _ _ v as _ _ ih =>
    have hpush : (p.push v).offset.toNat = (p.offset.toNat + 255) % 256 := by
      rw [offset_push]
      bv_omega
    rw [ih, hpush, depth]
    omega
  | @pull p _ _ _ as _ _ _ ih =>
    have hpull : p.pull.offset.toNat = (p.offset.toNat + 1) % 256 := by
      rw [offset_pull]
      exact BitVec.toNat_add _ _
    rw [ih, hpull, depth]
    omega

/-- A pointer in page one stays there. -/
theorem high_pointer_of_high (h : Path p as q) (hp : p.pointer.high = 1) : q.pointer.high = 1 := by
  induction h with
  | nil p => exact hp
  | push _ _ ih => exact ih (Word.high_ofBytes 1 _)
  | pull _ _ _ ih => exact ih (Word.high_ofBytes 1 _)

/-- The first access brings the pointer into page one. -/
theorem high_pointer (h : Path p as q) (hne : as ≠ []) : q.pointer.high = 1 := by
  cases h with
  | nil p => exact absurd rfl hne
  | push _ h => exact h.high_pointer_of_high (Word.high_ofBytes 1 _)
  | pull _ _ h => exact h.high_pointer_of_high (Word.high_ofBytes 1 _)

/-! ### The cells -/

/-- A cell holds the byte pushed last to it, or what it held at the start. -/
theorem cells_eq (h : Path p as q) (o : Byte) :
    q.cells o = (lastPushed as o).getD (p.cells o) := by
  induction h with
  | nil p => rfl
  | @push p _ offset v as ho _ ih =>
    rw [ih, lastPushed_cons]
    cases lastPushed as o with
    | some last => rfl
    | none =>
      subst ho
      by_cases he : p.offset = o
      · simp [pushedTo?, StackPage.push, he]
      · simp [pushedTo?, StackPage.push, he, Ne.symm he]
  | pull _ _ _ ih =>
    rw [ih, lastPushed_cons]
    simp [pushedTo?, StackPage.pull]

/-- A pull returns the byte pushed last to its cell, or what the cell held at the start. -/
theorem value_eq {o v : Byte} (h : Path p (as ++ .pull o v :: bs) r) :
    v = (lastPushed as o).getD (p.cells o) := by
  obtain ⟨q, hbefore, hafter⟩ := h.exists_of_append
  cases hafter with
  | pull _ hv _ => exact hv.trans (hbefore.cells_eq o)

end Path

/-! ## Ordinary stacks -/

/-- The cells above the pointer hold the bytes of a stack, its top first. -/
def Holds (p : StackPage) (stack : List Byte) : Prop :=
  ∀ i v, stack[i]? = some v → p.cells (p.offset + 1 + .ofNat 8 i) = v

namespace Holds

variable {p : StackPage} {stack : List Byte} {v : Byte}

theorem nil (p : StackPage) : p.Holds [] := by
  intro i v h
  cases h

/-- A push overwrites no byte of a stack that leaves room for it. -/
theorem push (h : p.Holds stack) (hroom : stack.length < 256) (v : Byte) :
    (p.push v).Holds (v :: stack) := by
  intro i w hi
  cases i with
  | zero =>
    obtain rfl := Option.some.inj hi
    have hcell : (p.push v).offset + 1 + .ofNat 8 0 = p.offset := by
      rw [offset_push]
      bv_omega
    rw [hcell]
    exact if_pos rfl
  | succ i =>
    rw [List.getElem?_cons_succ] at hi
    have hlt : i < stack.length := (List.getElem?_eq_some_iff.mp hi).1
    have hcell : (p.push v).offset + 1 + .ofNat 8 (i + 1) = p.offset + 1 + .ofNat 8 i := by
      rw [offset_push]
      bv_omega
    have hne : p.offset + 1 + .ofNat 8 i ≠ p.offset := by
      bv_omega
    rw [hcell]
    exact (if_neg hne).trans (h i w hi)

/-- A pull returns the top of a stack and leaves the rest. -/
theorem pull (h : p.Holds (v :: stack)) : p.cells (p.offset + 1) = v ∧ p.pull.Holds stack := by
  refine ⟨?_, fun i w hi => ?_⟩
  · have htop := h 0 v rfl
    simpa using htop
  · have hcell : p.pull.offset + 1 + .ofNat 8 i = p.offset + 1 + .ofNat 8 (i + 1) := by
      rw [offset_pull]
      bv_omega
    rw [hcell]
    exact h (i + 1) w hi

end Holds

/-- Accesses of one direction, with as many bytes on the stack as they pull and room for those that
they push, are what they are on an ordinary stack. Bytes below that stack stay where they are. -/
theorem Path.replay_eq {p q : StackPage} {as : List StackAccess} {stack base : List Byte}
    (h : Path p as q) (hway : oneWay as = true) (hold : p.Holds (stack ++ base))
    (hroom : stack.length + base.length ≤ 256) (hlow : 0 ≤ stack.length + depth as)
    (hhigh : stack.length + base.length + depth as ≤ 256) :
    ∃ rest, replay as stack = some rest ∧ q.Holds (rest ++ base) ∧
      (rest.length : Int) = stack.length + depth as := by
  induction h generalizing stack with
  | nil p => exact ⟨stack, rfl, hold, by simp [depth]⟩
  | @push p _ _ v _ _ _ ih =>
    obtain ⟨hway, hdepth⟩ := oneWay_of_push hway
    simp only [depth] at hlow hhigh ⊢
    have hpush := hold.push (by rw [List.length_append]; omega) v
    have hlength : (v :: stack).length = stack.length + 1 := rfl
    obtain ⟨rest, hreplay, hrest, hcount⟩ :=
      @ih (v :: stack) hway hpush (by omega) (by omega) (by omega)
    exact ⟨rest, hreplay, hrest, by omega⟩
  | @pull p _ o v _ ho hv _ ih =>
    obtain ⟨hway, hdepth⟩ := oneWay_of_pull hway
    simp only [depth] at hlow hhigh ⊢
    cases stack with
    | nil =>
      simp only [List.length_nil] at hlow
      omega
    | cons top stack =>
      obtain ⟨htop, hpull⟩ := hold.pull
      simp only [List.length_cons] at hroom hlow hhigh ⊢
      obtain ⟨rest, hreplay, hrest, hcount⟩ := ih hway hpull (by omega) (by omega) (by omega)
      refine ⟨rest, ?_, hrest, by omega⟩
      rw [replay, if_pos (hv.trans (ho ▸ htop)), hreplay]

end StackPage

end M6502
