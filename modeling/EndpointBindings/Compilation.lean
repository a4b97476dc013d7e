import EndpointBindings.Config
import EndpointBindings.Discovery
import EndpointBindings.Document
import EndpointBindings.Registry
import EndpointBindings.Text.Case
import EndpointBindings.World

/-!
All documents of a directory. A bad file stops no other: what compiles goes into the registry under
its name, and what does not is listed with its error. Of several files with one name the first in
the order of the paths keeps it.
-/

namespace EndpointBindings

namespace Document

/-- The format that the suffix of a file tells. -/
def hintFor (p : FilePath) : Hint :=
  match Text.lowerAscii p.suffix with
  | ".json" => .json
  | ".yaml" | ".yml" => .yaml
  | _ => .none

/-- The document in a file. -/
def ofFile (w : World) (path : String) : Except Failure Fields := do
  let p := FilePath.ofString path
  match ← (w.octets? p).mapError Failure.defect with
  | none => .error (.spec (.unreadable (.noFile path)))
  | some octets => load (.octets octets) (hintFor p)

end Document

/-- What became of a file. -/
abbrev Outcome := Except SpecError Endpoint

structure Compilation where
  registry : Registry
  /-- In the order of the paths. -/
  errors : List FileError
  /-- The file of each endpoint. -/
  files : NameMap String

namespace Compilation

def empty : Compilation := ⟨.empty, [], .empty⟩

/-- The endpoint of a file's octets, under its own name or else the file's. -/
def compileFile (path : String) (octets : List UInt8) (room : Room := .inLine) :
    Except Defect Outcome :=
  let p := FilePath.ofString path
  match Document.parse (.octets octets) (Document.hintFor p) room with
  | .ok e => .ok (.ok (e.orNamed (endpointNameFor path)))
  | .error (.spec error) => .ok (.error error)
  | .error (.defect d) => .error d

/-- Adds what became of a file. -/
def add (c : Compilation) (path : String) (outcome : Outcome) : Compilation :=
  match outcome with
  | .error error => { c with errors := c.errors ++ [⟨path, error⟩] }
  | .ok e =>
    let name := e.name.getD (endpointNameFor path)
    match c.files.get? name with
    | some first => { c with errors := c.errors ++ [⟨path, .duplicateEndpoint name (some first)⟩] }
    | none => { c with registry := c.registry.insert name e, files := c.files.insert name path }

/-- Files in the order of their paths. -/
def sortOutcomes (outcomes : List (String × Outcome)) : List (String × Outcome) :=
  outcomes.mergeSort fun a b => decide (a.1 ≤ b.1)

/-- Everything that became of the files, in whatever order they are given. -/
def merge (outcomes : List (String × Outcome)) : Compilation :=
  (sortOutcomes outcomes).foldl (fun c o => c.add o.1 o.2) empty

def compileFiles (files : List (String × List UInt8)) (room : Room := .inLine) :
    Except Defect (List (String × Outcome)) :=
  match files with
  | [] => .ok []
  | (path, octets) :: rest => do
    let outcome ← compileFile path octets room
    return (path, outcome) :: (← compileFiles rest room)

/-- Compiles the documents of a directory. -/
def ofDirectory (w : World) (directory : String) (config : CompilerConfig)
    (room : Room := .inLine) : Except Failure Compilation := do
  let p := FilePath.ofString directory
  if ← (w.files.isDirectory w.cwd p).mapError Failure.defect then
    (do
      let found ← Discovery.documents w.files w.cwd p config.included config.excluded
      return merge (← compileFiles found.entries room)).mapError Failure.defect
  else .error (.spec (.unreadable (.noDirectory directory)))

def isClean (c : Compilation) : Bool := c.errors.isEmpty

end Compilation

end EndpointBindings
