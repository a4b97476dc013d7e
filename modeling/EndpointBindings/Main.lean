import EndpointBindings.Program.Reach
import Std.Time.Zoned

/-!
The command line program. It hands the files that a run looks at to `Program.run` and writes those
that the run changed.
-/

namespace EndpointBindings

/-- The variables of the environment that a run looks at. -/
def variableNames : List String :=
  ["NO_COLOR", "TERM", "HOME", "XDG_CONFIG_HOME", "XDG_DATA_HOME", "SPECBIND_SPEC_DIR",
    "SPECBIND_OUT_DIR", "SPECBIND_WORKERS"]

def readEnvironment : IO Environment :=
  variableNames.filterMapM fun name => do
    return (← IO.getEnv name).map fun value => (name, value)

/-- The time as the names of logs tell it. -/
def timeStamp : IO String := do
  let t ← Std.Time.PlainDateTime.now
  let date := [t.month.val, t.day.val].map fun n => padded 2 n.toNat
  let clock := [t.hour.val, t.minute.val, t.second.val].map fun n => padded 2 n.toNat
  return padded 4 t.year.toInt.toNat ++ String.join date ++ "-" ++ String.join clock

def pathText (l : Location) : String := "/" ++ FileSystem.joinNames l

/-- Takes over what stands at a place on the disk, and all that is in it. -/
partial def loadTree (l : Location) (files : FileSystem) : IO FileSystem := do
  let path := (← IO.currentDir) / pathText l
  if ← path.isDir then
    let names := (← path.readDir).toList.map (·.fileName)
    names.foldlM (fun files name => loadTree (l ++ [name]) files) (files.put l .directory)
  else if ← path.pathExists then
    return files.put l (.file (← IO.FS.readBinFile path).toList)
  else return files

/-- Takes over what a path leads to, with the directories on the way. -/
def loadFrom (l : Location) : List String → FileSystem → IO FileSystem
  | [], files => loadTree l files
  | name :: rest, files => do
    if ← ((← IO.currentDir) / pathText l).isDir then
      loadFrom (if name = ".." then l.dropLast else l ++ [name]) rest
        (if l = [] then files else files.put l .directory)
    else return files

def loadPath (w : World) (p : FilePath) : IO World := do
  return { w with files := ← loadFrom (if p.root.isEmpty then w.cwd else []) p.parts w.files }

/-- Writes what differs from the files before, each file beside its place first. -/
def save (before after : FileSystem) : IO Unit :=
  after.nodes.forM fun (l, node) => do
    if before.get? l ≠ some node then
      match node with
      | .directory => IO.FS.createDirAll (pathText l)
      | .file octets =>
        let target := pathText l
        IO.FS.writeBinFile (target ++ ".tmp") (ByteArray.mk octets.toArray)
        IO.FS.rename (target ++ ".tmp") target

/-- The world before any file is looked at. -/
def startWorld : IO World := do
  let cwd := (FilePath.ofString (← IO.currentDir).toString).parts
  let files := (List.range cwd.length).foldl
    (fun files k => files.put (cwd.take (k + 1)) .directory) FileSystem.empty
  return {
    env := ← readEnvironment
    system := "Linux"
    accountHome := "/"
    files := files
    cwd := cwd
    time := ← timeStamp
    terminal := ← (← IO.getStdout).isTty }

end EndpointBindings

open EndpointBindings in
def main (words : List String) : IO UInt32 := do
  let w ← startWorld
  let w ← (Program.settingsPaths w).foldlM loadPath w
  let w ← (Program.paths w words).foldlM loadPath w
  let f := Program.run w words
  save w.files f.files
  (← IO.getStdout).putStr f.output
  (← IO.getStderr).putStr f.diagnostics
  match f.ending with
  | .exit code => return code.toUInt32
  | .uncaught d =>
    (← IO.getStderr).putStrLn d.message
    return 1
