import EndpointBindings.Verb
import EndpointBindings.Param
import EndpointBindings.Path

/-!
Endpoints: what a document declares, with every type resolved and every default checked.
-/

namespace EndpointBindings

structure Body where
  required : Bool
  description : Option String
  /-- How the body is to be written, for instance `bulk`. -/
  serialize : Option String
  deriving DecidableEq, Repr

structure Endpoint where
  /-- A document need not name its endpoint; the file that holds it does then. -/
  name : Option String
  documentation : Option String
  /-- In canonical order, each once. -/
  verbs : List Verb
  paths : List PathTemplate
  /-- In the order of the document. -/
  params : List (String × Param)
  body : Option Body
  deriving DecidableEq, Repr

namespace Endpoint

def withName (e : Endpoint) (name : String) : Endpoint := { e with name := some name }

/-- The endpoint with a name of its own or else the given one. -/
def orNamed (e : Endpoint) (name : String) : Endpoint :=
  { e with name := some (e.name.getD name) }

def parts (e : Endpoint) : List PathPart := e.paths.flatMap (·.parts)

end Endpoint

end EndpointBindings
