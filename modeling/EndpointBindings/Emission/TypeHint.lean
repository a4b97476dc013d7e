import EndpointBindings.ValueType
import EndpointBindings.Text.Escaped

/-!
The type hints of the emitted source, and the names from `typing` that each of them needs.
-/

namespace EndpointBindings.Emission

open EndpointBindings.Text

inductive TypeHint where
  | str
  | bool
  | int
  | float
  | any
  | textSequence
  | literal (options : List String)
  | named (name : String)
  | optional (inner : TypeHint)
  deriving DecidableEq, Repr

namespace TypeHint

def ofType : ValueType → TypeHint
  | .string | .time => str
  | .boolean => bool
  | .list => textSequence
  | .number kind => if kind.isIntegral then int else float
  | .choice options => literal options.texts
  | .other _ => any

def render : TypeHint → String
  | str => "str"
  | bool => "bool"
  | int => "int"
  | float => "float"
  | any => "Any"
  | textSequence => "Sequence[str]"
  | literal options => "Literal[" ++ ", ".intercalate (options.map Escaped.ascii) ++ "]"
  | named name => name
  | optional inner => "Optional[" ++ inner.render ++ "]"

/-- The names from `typing` in a type hint. -/
def typingNames : TypeHint → List String
  | any => ["Any"]
  | textSequence => ["Sequence"]
  | literal _ => ["Literal"]
  | optional inner => "Optional" :: inner.typingNames
  | _ => []

end TypeHint

/-- The names that a module may import from `typing`, in order. -/
def typingOrder : List String := ["Any", "Literal", "Optional", "Sequence"]

/-- Names in order, each once. -/
def sortTypingNames (names : List String) : List String := typingOrder.filter (· ∈ names)

end EndpointBindings.Emission
