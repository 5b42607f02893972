/-!
# JSON values

A JSON document as a tree. The members of an object are kept as they stand, so a key may occur more
than once; a reader that asks for one entry decides what that means.

## Main definitions

* `Json` — a value.
* `Json.entries` — what an object says under a key.
* `Json.symbol?` — the name that a value stands for, if it stands for one.
-/

namespace M6502

/-- A JSON value. A number is `mantissa` divided by ten to the power `exponent`. -/
inductive Json where
  | null
  | bool (b : Bool)
  | number (mantissa : Int) (exponent : Nat)
  | string (s : String)
  | array (items : List Json)
  | object (members : List (String × Json))

namespace Json

instance : Inhabited Json := ⟨null⟩

/-- All values that the members of an object give to a key, in order. -/
def entries (members : List (String × Json)) (key : String) : List Json :=
  (members.filter (·.1 == key)).map (·.2)

/-- The name a value stands for. A name is written as a string, or as an object with that name as
its only key and nothing under it. -/
def symbol? : Json → Option String
  | string s => some s
  | object [(s, null)] => some s
  | _ => none

end Json

end M6502
