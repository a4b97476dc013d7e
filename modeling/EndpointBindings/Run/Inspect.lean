import EndpointBindings.CommandLine
import EndpointBindings.Compilation
import EndpointBindings.Run

/-!
Listing what a directory compiles to: its endpoints, or the files that fail. Nothing is written.
-/

namespace EndpointBindings.Run

open CommandLine

def compilationOf (w : World) (specDir : Option String) (excluded : List String) :
    Except RunError Compilation := do
  let layer : Layer := fun s => if s = .specDir then specDir.map Value.text else none
  let config ← (Config.resolve w layer excluded).mapError RunError.ofConfig
  match config.specDir with
  | none => .error .noSpecDirectory
  | some directory => (Compilation.ofDirectory w directory config).mapError RunError.ofDocument

/-- What an endpoint says of its body. -/
def bodyLabel (e : Endpoint) : String :=
  match e.body with
  | none => "-"
  | some b =>
    let label := if b.required then "required" else "optional"
    match b.serialize with
    | none | some "" => label
    | some form => label ++ " (" ++ form ++ ")"

/-- The names of the parameters in order, or a dash. -/
def paramsLabel (e : Endpoint) : String :=
  let label := ", ".intercalate (NameMap.ofPairs e.params).names
  if label.isEmpty then "-" else label

def endpointHeaders : List String := ["Endpoint", "Verbs", "Paths", "Params", "Body", "File"]

def endpointRow (c : Compilation) (name : String) (e : Endpoint) : List String :=
  [name, ", ".intercalate ((Verb.canonical e.verbs).map Verb.token),
    " ".intercalate (e.paths.map (·.raw)), paramsLabel e, bodyLabel e, (c.files.get? name).getD "-"]

def errorHeaders : List String := ["File", "Error", "Message"]

def errorRow (e : FileError) : List String := [e.file, e.error.kind.name, e.error.message]

/-- The listing of a compilation, or a remark that there is nothing to list. -/
def listing (files : FileSystem) (c : Compilation) : Subject → Run
  | .endpoints =>
    if c.registry.isEmpty then done files [⟨.info, "No endpoints compiled."⟩] .none
    else done files []
      (.table endpointHeaders (c.registry.entries.map fun (name, e) => endpointRow c name e))
  | .errors =>
    if c.isClean then done files [⟨.info, "No errors."⟩] .none
    else done files [] (.table errorHeaders (c.errors.map errorRow))

def inspect (w : World) (subject : Subject) (specDir : Option String) (excluded : List String) :
    Run :=
  match compilationOf w specDir excluded with
  | .error e => failed w [] e
  | .ok c => listing w.files c subject

end EndpointBindings.Run
