import EndpointBindings.Endpoint
import EndpointBindings.NameMap
import EndpointBindings.SpecError

/-!
Endpoints by name. A name belongs to the first endpoint that claims it.
-/

namespace EndpointBindings

abbrev Registry := NameMap Endpoint

namespace Registry

/-- Why endpoints make no registry. -/
inductive Fault where
  | unnamed
  | duplicate (name : String)
  deriving DecidableEq, Repr

/-- Adds endpoints under their own names, each of which must be new. -/
def add (r : Registry) : List Endpoint → Except Fault Registry
  | [] => .ok r
  | e :: rest =>
    match e.name with
    | none => .error .unnamed
    | some name =>
      if r.contains name then .error (.duplicate name) else add (r.insert name e) rest

def ofEndpoints (es : List Endpoint) : Except Fault Registry := add .empty es

/-- A registry as a message shows it. -/
def display (r : Registry) : String :=
  "Registry([" ++ ", ".intercalate (r.names.map Text.Quoted.quote) ++ "])"

end Registry

end EndpointBindings
