import M6502.Config
import M6502.Json

/-!
# Configurations as JSON

A configuration is written as an object with one entry for each choice. A reader takes more: an
entry may be missing, and then the choice is the default; entries for other keys are ignored; and
the choices may stand in an array, in order, with the last ones missing. A choice that is there has
to be one of its names, and a key that matters may not stand twice.

## Main definitions

* `Config.toJson` — a configuration in its written form.
* `Config.ofJson?` — the configuration that a value describes.

## Main statements

* `Config.ofJson?_toJson` — what was written is read back.
-/

namespace M6502

namespace IllegalPolicy

def key : IllegalPolicy → String
  | fault => "fault"
  | skip => "nop"

def ofKey? (name : String) : Option IllegalPolicy := [fault, skip].find? (·.key == name)

def ofJson? (v : Json) : Option IllegalPolicy := v.symbol?.bind ofKey?

@[simp] theorem ofKey?_key (p : IllegalPolicy) : ofKey? p.key = some p := by
  cases p <;> decide

end IllegalPolicy

namespace ByteOrder

def key : ByteOrder → String
  | highFirst => "high_first"
  | lowFirst => "low_first"

def ofKey? (name : String) : Option ByteOrder :=
  [highFirst, lowFirst].find? (·.key == name)

def ofJson? (v : Json) : Option ByteOrder := v.symbol?.bind ofKey?

@[simp] theorem ofKey?_key (o : ByteOrder) : ofKey? o.key = some o := by
  cases o <;> decide

end ByteOrder

/-- Reads a choice from the values that are given for it: the default if there is none. More than
one value is an error. -/
def Json.choice? {α : Type} (default : α) (read : Json → Option α) : List Json → Option α
  | [] => some default
  | [v] => read v
  | _ => none

namespace Config

def policyKey : String := "illegal_opcodes"

def orderKey : String := "operand_order"

def toJson (c : Config) : Json :=
  .object [(policyKey, .string c.policy.key), (orderKey, .string c.order.key)]

def ofChoices? (policies orders : List Json) : Option Config := do
  let policy ← Json.choice? standard.policy IllegalPolicy.ofJson? policies
  let order ← Json.choice? standard.order ByteOrder.ofJson? orders
  return { policy, order }

/-- The configuration that a value describes: an object with entries for the choices, or an array
of the choices in order. -/
def ofJson? : Json → Option Config
  | .object members =>
    ofChoices? (Json.entries members policyKey) (Json.entries members orderKey)
  | .array items =>
    -- All items after the first stand for the second choice, of which there may be one.
    ofChoices? (items.take 1) (items.drop 1)
  | _ => none

@[simp] theorem ofJson?_toJson (c : Config) : ofJson? c.toJson = some c := by
  have hp : (policyKey == orderKey) = false := by decide
  have ho : (orderKey == policyKey) = false := by decide
  simp [toJson, ofJson?, Json.entries, hp, ho, ofChoices?, Json.choice?, IllegalPolicy.ofJson?,
    ByteOrder.ofJson?, Json.symbol?]

end Config

end M6502
