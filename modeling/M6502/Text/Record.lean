/-!
# Record notation

A value written out as its name followed by its fields in braces.

## Main definitions

* `Text.record` — the notation itself.
* `Text.truth` — a truth value as a word.
-/

namespace M6502.Text

/-- One field: its name, a colon and its value. -/
def field (name value : String) : String := name ++ ": " ++ value

/-- A name followed by fields in braces. -/
def record (name : String) (fields : List String) : String :=
  name ++ " \x7b " ++ String.intercalate ", " fields ++ " \x7d"

def truth : Bool → String
  | true => "true"
  | false => "false"

end M6502.Text
