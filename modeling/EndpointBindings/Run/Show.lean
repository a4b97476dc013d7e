import EndpointBindings.Compilation
import EndpointBindings.Emission.Module
import EndpointBindings.Run
import EndpointBindings.Text.Case

/-!
Showing the module of a single document, as it would be written for a directory that holds it.
-/

namespace EndpointBindings.Run

/-- The verb that a word asks for, in letters of either case. -/
def selectedVerb (word : Option String) : Except RunError (Option Verb) :=
  match word with
  | none => .ok none
  | some s =>
    match Verb.ofToken? (Text.upper s) with
    | some v => .ok (some v)
    | none => .error (.notVerb (Text.upper s))

/-- The endpoint of a file, under its own name or the file's. -/
def endpointOf (w : World) (specFile : String) : Except RunError Endpoint := do
  let fields ← (Document.ofFile w specFile).mapError RunError.ofDocument
  let e ← (assemble fields).mapError RunError.ofDocument
  return e.orNamed (endpointNameFor specFile)

def requireVerb (e : Endpoint) (name : String) : Option Verb → Except RunError Unit
  | none => .ok ()
  | some v => if v ∈ e.verbs then .ok () else .error (.unsupportedVerb name v)

/-- The text of a file's module, with the bindings of one verb or of all. -/
def moduleOf (w : World) (specFile : String) (word : Option String) : Except RunError String := do
  let selected ← selectedVerb word
  let e ← endpointOf w specFile
  let name := e.name.getD ""
  requireVerb e name selected
  let bindings ← (Emission.emit (NameMap.empty.insert name e)).mapError RunError.defect
  let shown := match selected with
    | none => bindings
    | some v => bindings.filter (·.verb = v)
  (Emission.moduleText e shown).mapError RunError.defect

def showModule (w : World) (specFile : String) (word : Option String) : Run :=
  match moduleOf w specFile word with
  | .error e => failed w [] e
  | .ok text => done w.files [] (.source text)

end EndpointBindings.Run
