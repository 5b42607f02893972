import M6502.Word

/-!
# Timing

An instruction takes a fixed number of cycles, to which two things add: an instruction that only
reads its data cell waits one cycle for an index that leads to another page, and a branch that is
taken waits one cycle, or two if it leads to another page. Instructions that write always take the
longer time, so a crossing never adds to theirs.

## Main definitions

* `Access` — what an instruction does with its data cell.
* `Access.crossingCycles`, `branchCycles` — the additional cycles.
-/

namespace M6502

/-- What an instruction does with its data cell. -/
inductive Access where
  | read
  | write
  | readModifyWrite
  /-- There is no data cell. -/
  | other
deriving DecidableEq, Repr

namespace Access

def all : List Access := [read, write, readModifyWrite, other]

def name : Access → String
  | read => "Read"
  | write => "Write"
  | readModifyWrite => "ReadModifyWrite"
  | other => "Other"

def ofName? (name : String) : Option Access := all.find? (·.name == name)

/-- The additional cycles of an access, by whether its index led to another page. -/
def crossingCycles : Access → Bool → Nat
  | read, true => 1
  | _, _ => 0

end Access

/-- The additional cycles of a branch: none if it is not taken, else one, and one more if `target`
is not on the page of `next`, the address after the branch. -/
def branchCycles (taken : Bool) (next target : Word) : Nat :=
  match taken, next.samePage target with
  | false, _ => 0
  | true, true => 1
  | true, false => 2

end M6502
