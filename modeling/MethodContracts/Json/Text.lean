import MethodContracts.Json.Layout
import MethodContracts.Json.Printer
import MethodContracts.Json.Reader

/-!
# Values as JSON texts

A codec together with the reader and the printer turns values into texts and texts into
values. What follows the value in a text is looked at last, so a value that breaks a rule
is reported before anything that stands behind it.
-/

namespace MethodContracts.Codec

variable {α : Type}

/-- The compact text of a value. -/
def render (codec : Codec α) (a : α) : String := (codec.write a).render

/-- The value of a text. -/
def parse (codec : Codec α) (source : Text.Source) : Except ReadError α :=
  let document := Json.read source
  match codec.read .wholeText document.tree with
  | .ok a => if document.ends then .ok a else .error .shape
  | .error e => .error e

end MethodContracts.Codec
