import EndpointBindings.FileSystem
import EndpointBindings.Naming.Fresh
import EndpointBindings.Text.Utf8

/-!
Making directories and writing files. Where a failure must leave what was there before, a file is
written beside its place and then moved there in one step.
-/

namespace EndpointBindings.FileSystem

/-- Makes one directory inside another that is there. -/
def makeDirectory (fs : FileSystem) (cwd : Location) (p : FilePath) : Except Defect FileSystem := do
  let l ← fs.locate cwd p
  match fs.get? l with
  | some _ => .error .fileExists
  | none =>
    if fs.isDirectoryAt l.dropLast then .ok (fs.put l .directory) else .error .noSuchFile

/-- A directory that is there already will do. -/
def acceptExisting (fs : FileSystem) (cwd : Location) (p : FilePath) (e : Defect) :
    Except Defect Unit :=
  if e = .noSuchFile then .error e
  else do if ← fs.isDirectory cwd p then .ok () else .error e

/-- Makes a directory with all those on the way to it; the parts are given last first. What is made
before a failure stays. -/
def makeDirectories (fs : FileSystem) (cwd : Location) (root : String) :
    List String → FileSystem × Except Defect Unit
  | [] =>
    match fs.makeDirectory cwd ⟨root, []⟩ with
    | .ok made => (made, .ok ())
    | .error e => (fs, fs.acceptExisting cwd ⟨root, []⟩ e)
  | name :: outer =>
    let p : FilePath := ⟨root, (name :: outer).reverse⟩
    match fs.makeDirectory cwd p with
    | .ok made => (made, .ok ())
    | .error .noSuchFile =>
      match makeDirectories fs cwd root outer with
      | (made, .error e) => (made, .error e)
      | (made, .ok ()) =>
        match made.makeDirectory cwd p with
        | .ok all => (all, .ok ())
        | .error e => (made, made.acceptExisting cwd p e)
    | .error e => (fs, fs.acceptExisting cwd p e)

def ensureDirectory (fs : FileSystem) (cwd : Location) (p : FilePath) :
    FileSystem × Except Defect Unit :=
  fs.makeDirectories cwd p.root p.parts.reverse

/-- Writes a file where it stands, after making the directories on the way to it. -/
def writeInPlace (fs : FileSystem) (cwd : Location) (p : FilePath) (octets : List UInt8) :
    FileSystem × Except Defect Unit :=
  match fs.ensureDirectory cwd p.parent with
  | (fs, .error d) => (fs, .error d)
  | (fs, .ok ()) =>
    match fs.locate cwd p with
    | .error d => (fs, .error d)
    | .ok l =>
      if fs.isDirectoryAt l then (fs, .error .isDirectory)
      else (fs.put l (.file octets), .ok ())

/-- The names of what stands directly in a directory. -/
def namesIn (fs : FileSystem) (directory : Location) : List String :=
  fs.nodes.filterMap fun e =>
    match relative? directory e.1 with
    | some [name] => some name
    | _ => none

/-- A name for a file that is still to be moved, which no other file beside it has. -/
def temporaryName (fs : FileSystem) (directory : Location) (name : String) : String :=
  Naming.fresh (fun k => "." ++ name ++ "." ++ toString k ++ ".tmp")
    (fs.namesIn directory)

/-- The steps of a write. The directories on the way are made first, then an empty file beside the
target. -/
inductive Step where
  | prepare
  | create
  | write
  | flush
  | sync
  | close
  | move
  deriving DecidableEq, Repr

/-- The steps after the file beside the target is there. -/
def Step.afterCreation : List Step := [write, flush, sync, close, move]

/-- Whether a place ends in a name of its own, not in one that leads elsewhere. -/
def isNamed (l : Location) : Bool :=
  match l.getLast? with
  | none | some "" | some ".." => false
  | some _ => true

/-- Moves a file over what stands at the target, which must not be a directory. -/
def moveFile (fs : FileSystem) (source target : Location) : Except Defect FileSystem :=
  if !isNamed target then .error .unnamedPlace
  else
    match fs.get? source, fs.get? target with
    | _, some .directory => .error .isDirectory
    | some n, _ => .ok ((fs.remove source).put target n)
    | none, _ => .error .noSuchFile

/-- What a step comes to when the file beside the target is there. -/
def perform (fs : FileSystem) (temporary target : Location) (octets : List UInt8) :
    Step → Except Defect FileSystem
  | .write => .ok (fs.put temporary (.file octets))
  | .prepare | .create | .flush | .sync | .close => .ok fs
  | .move => fs.moveFile temporary target

/-- Performs the steps in order. At the first that fails, by itself or by a fault from outside, the
file beside the target is taken away. -/
def performAll (fault : Step → Option Defect) (temporary target : Location) (octets : List UInt8) :
    List Step → FileSystem → FileSystem × Except Defect Unit
  | [], fs => (fs, .ok ())
  | s :: rest, fs =>
    match fault s with
    | some d => (fs.remove temporary, .error d)
    | none =>
      match fs.perform temporary target octets s with
      | .ok next => performAll fault temporary target octets rest next
      | .error d => (fs.remove temporary, .error d)

/-- Replaces the file at a place, or leaves everything as it was. -/
def replaceFile (fault : Step → Option Defect) (fs : FileSystem) (directory : Location)
    (name : String) (octets : List UInt8) : FileSystem × Except Defect Unit :=
  match fault .create with
  | some d => (fs, .error d)
  | none =>
    let temporary := directory ++ [fs.temporaryName directory name]
    performAll fault temporary (directory ++ [name]) octets Step.afterCreation
      (fs.put temporary (.file []))

/-- The octets that the name of a file still to be moved has besides those of its own name. -/
def temporaryExcess : Nat := 14

/-- Checks the name of a file that is to be written. -/
def requireName (name : String) : Except Defect Unit :=
  if name.contains '\x00' then .error .nulInName
  else if maxNameLength < name.utf8ByteSize + temporaryExcess then .error .nameTooLong
  else .ok ()

/-- The directory of a path to a file, and the file's name. -/
def locateTarget (fs : FileSystem) (cwd : Location) (p : FilePath) :
    Except Defect (Location × String) := do
  let directory ← fs.locate cwd p.parent
  requireName p.name
  return (directory, p.name)

/-- Writes a file in one step, after making the directories on the way to it. -/
def write (fault : Step → Option Defect) (fs : FileSystem) (cwd : Location) (p : FilePath)
    (octets : List UInt8) : FileSystem × Except Defect Unit :=
  match fault .prepare with
  | some d => (fs, .error d)
  | none =>
    match fs.ensureDirectory cwd p.parent with
    | (fs, .error d) => (fs, .error d)
    | (fs, .ok ()) =>
      match fs.locateTarget cwd p with
      | .error d => (fs, .error d)
      | .ok (directory, name) => replaceFile fault fs directory name octets

/-- Writes one file after another up to the first that fails. -/
def writeAll (fault : String → Step → Option Defect) (cwd : Location) (directory : FilePath) :
    List (String × String) → FileSystem → FileSystem × Except Defect Unit
  | [], fs => (fs, .ok ())
  | (name, text) :: rest, fs =>
    match write (fault name) fs cwd (directory.child name) (Text.Utf8.encode text.toList) with
    | (fs, .error d) => (fs, .error d)
    | (fs, .ok ()) => writeAll fault cwd directory rest fs

/-- No step fails for a reason from outside. -/
def noFault : Step → Option Defect := fun _ => none

end EndpointBindings.FileSystem
