import EndpointBindings.Registry
import EndpointBindings.Emission.Function
import EndpointBindings.Emission.ParamsClass

/-!
The bindings of a registry: one for each endpoint and verb, in the order of the endpoint names and
then of the verbs.
-/

namespace EndpointBindings.Emission

open EndpointBindings.Naming

/-- The bindings of one endpoint. An endpoint that a document gave has verbs and paths. -/
def bindingsOf (e : Endpoint) : Except Defect (List Binding) :=
  match e.name with
  | none => .error .endpointWithoutName
  | some name =>
    if e.verbs.isEmpty then .error (.endpointWithoutVerbs name)
    else if e.paths.isEmpty then .error (.endpointWithoutPaths name)
    else .ok ((Verb.canonical e.verbs).map fun verb =>
      ⟨name, verb, functionsOf e (className name) verb [] e.paths⟩)

def emitAll : List Endpoint → Except Defect (List Binding)
  | [] => .ok []
  | e :: rest => do return (← bindingsOf e) ++ (← emitAll rest)

def emit (r : Registry) : Except Defect (List Binding) := emitAll r.values

end EndpointBindings.Emission
