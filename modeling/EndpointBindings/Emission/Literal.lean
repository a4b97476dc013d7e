import EndpointBindings.Default
import EndpointBindings.Text.Escaped

/-!
Default values as expressions of the emitted source.
-/

namespace EndpointBindings.Emission

open EndpointBindings.Text EndpointBindings.Number

def boolLiteral (b : Bool) : String := if b then "True" else "False"

/-- Numbers that are not finite have no literal and are made from their names. -/
def floatLiteral (x : Binary64) : String :=
  if x.isFinite then x.text else "float(\"" ++ x.text ++ "\")"

/-- A tuple; one of a single item ends in a comma. -/
def tupleLiteral : List String → String
  | [item] => "(" ++ Escaped.ascii item ++ ",)"
  | items => "(" ++ ", ".intercalate (items.map Escaped.ascii) ++ ")"

def literal : Default → String
  | .text s => Escaped.ascii s
  | .flag b => boolLiteral b
  | .integer i => toString i
  | .float x => floatLiteral x
  | .list items => tupleLiteral items

end EndpointBindings.Emission
