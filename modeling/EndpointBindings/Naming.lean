import EndpointBindings.Naming.Identifier
import EndpointBindings.Naming.Fresh
import EndpointBindings.Verb

/-!
Names of the emitted modules, classes and functions.
-/

namespace EndpointBindings.Naming

def moduleName (endpoint : String) : String := identifier endpoint

def capitalise : List Char → List Char
  | [] => []
  | c :: rest => c.toUpper :: rest

/-- The words of the endpoint's identifier with capitals, and a common ending. -/
def className (endpoint : String) : String :=
  String.ofList ((wordsOf (identifier endpoint).toList).flatMap capitalise) ++ "Params"

/-- The verb, then each path part. -/
def functionName (verb : Verb) (parts : List String) : String :=
  "_".intercalate (verb.word :: parts.map identifier)

end EndpointBindings.Naming
