import EndpointBindings.Default

/-!
Parameters of an endpoint. `declare` is the one way in: it checks that the default fits the type.
-/

namespace EndpointBindings

structure Param where
  type : ValueType
  required : Bool
  default : Option Default
  description : Option String
  deriving DecidableEq, Repr

namespace Param

/-- A parameter of a type; a null default is no default. -/
def declare (type : ValueType) (required : Bool) (default : Value) (description : Option String) :
    Except Misfit Param :=
  if default.isNull then .ok ⟨type, required, none, description⟩
  else do return ⟨type, required, some (← Default.fit type default), description⟩

/-- The default in a shape, null when there is none. -/
def readDefault (p : Param) (shape : Default.Shape) : Except TypeMismatch Value :=
  match p.default with
  | none => .ok .null
  | some d => d.readAs shape

end Param

end EndpointBindings
