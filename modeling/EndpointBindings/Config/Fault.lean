import EndpointBindings.Config.Reading
import EndpointBindings.ErrorKind
import EndpointBindings.NameMap

/-!
What can be wrong with the settings.
-/

namespace EndpointBindings

inductive ConfigFault where
  | malformedGlobal (path reason : String)
  | invalidGlobal (path : String) (places : List Place)
  | malformedProject (path reason : String)
  | projectNotObject (path : String)
  /-- Values that are left after layering cannot be read. -/
  | invalidSettings (places : List Place)

namespace ConfigFault

/-- Places as texts, in order and each once. -/
def placeTexts (ps : List Place) : List String :=
  (NameMap.ofPairs (ps.map fun p => (p.text, ()))).names

/-- The places at fault, where values were checked. -/
def places? : ConfigFault → Option (List String)
  | invalidGlobal _ ps | invalidSettings ps => some (placeTexts ps)
  | malformedGlobal .. | malformedProject .. | projectNotObject _ => none

/-- How many values are at fault, and where. -/
def detail (ps : List Place) : String :=
  toString ps.length ++ " validation error" ++ (if ps.length = 1 then "" else "s") ++
    String.join ((placeTexts ps).map ("\n" ++ ·))

def message : ConfigFault → String
  | malformedGlobal path reason => "Invalid global config at " ++ path ++ ": " ++ reason
  | invalidGlobal path ps => "Invalid global config at " ++ path ++ ": " ++ detail ps
  | malformedProject path reason => "Invalid project config at " ++ path ++ ": " ++ reason
  | projectNotObject path => "Invalid project config at " ++ path ++ ": expected a JSON object"
  | invalidSettings ps => "Invalid compiler configuration: " ++ detail ps

def report (f : ConfigFault) : Report := .of .config f.message

end ConfigFault

end EndpointBindings
