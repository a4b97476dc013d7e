/-!
The types that a parameter or a path part can have. A type name that is not known is kept as it is,
so that documents may use kinds that are not listed here.
-/

namespace EndpointBindings

inductive NumberKind where
  | long
  | integer
  | short
  | byte
  | float
  | double
  deriving DecidableEq, Repr

namespace NumberKind

def name : NumberKind → String
  | long => "long"
  | integer => "integer"
  | short => "short"
  | byte => "byte"
  | float => "float"
  | double => "double"

/-- The width in bits of the integral kinds. -/
def width? : NumberKind → Option Nat
  | long => some 64
  | integer => some 32
  | short => some 16
  | byte => some 8
  | float | double => none

def isIntegral (k : NumberKind) : Bool := k.width?.isSome

/-- The least and the largest integer of a width, with sign. -/
def bounds (width : Nat) : Int × Int :=
  let beyond : Int := Nat.pow 2 (width - 1)
  (-beyond, beyond - 1)

end NumberKind

/-- A choice has at least one option. -/
structure Options where
  texts : List String
  nonempty : texts ≠ []
  deriving DecidableEq, Repr

def Options.ofList? (texts : List String) : Option Options :=
  if h : texts = [] then none else some ⟨texts, h⟩

inductive ValueType where
  | string
  | boolean
  | time
  | list
  | number (kind : NumberKind)
  | choice (options : Options)
  | other (rawName : String)
  deriving DecidableEq, Repr

namespace ValueType

/-- How a type is named in messages. -/
def label : ValueType → String
  | string => "string"
  | boolean => "boolean"
  | time => "time"
  | list => "list"
  | number kind => "number(" ++ kind.name ++ ")"
  | choice options => "enum[" ++ "|".intercalate options.texts ++ "]"
  | other rawName => "other(" ++ rawName ++ ")"

/-- The types that are named by one word. -/
def named : List (String × ValueType) :=
  [("string", string), ("boolean", boolean), ("time", time), ("list", list),
   ("number", number .long), ("long", number .long), ("integer", number .integer),
   ("short", number .short), ("byte", number .byte), ("float", number .float),
   ("double", number .double)]

/-- The name of the types that list their options. -/
def choiceName : String := "enum"

/-- The type of a name with the options declared beside it, which count for a choice only. Nothing
is the answer for a choice without options. -/
def resolve? (name : String) (options : List String) : Option ValueType :=
  if name = choiceName then (Options.ofList? options).map choice
  else some ((named.lookup name).getD (other name))

theorem resolve?_eq_none {name : String} {options : List String} :
    resolve? name options = none ↔ name = choiceName ∧ options = [] := by
  by_cases hn : name = choiceName <;> by_cases ho : options = [] <;>
    simp [resolve?, Options.ofList?, hn, ho]

end ValueType

end EndpointBindings
