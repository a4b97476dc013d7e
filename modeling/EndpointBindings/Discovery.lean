import EndpointBindings.FileSystem
import EndpointBindings.NameMap
import EndpointBindings.Pattern

/-!
The documents of a directory: its files that the patterns select, in the order of their paths.
-/

namespace EndpointBindings.Discovery

/-- Directories of tools, into which nobody looks for documents. -/
def skippedDirectories : List String :=
  ["__pycache__", ".git", ".hg", ".tox", ".mypy_cache", ".ruff_cache"]

/-- Whether a directory on the way to a file is passed over. -/
def isSkipped (way : Location) : Bool := way.dropLast.any (skippedDirectories.contains ·)

/-- The files inside a directory that `wanted` holds of, by the ways to them. -/
def discover (wanted : String → Bool) (fs : FileSystem) (directory : Location) :
    NameMap (List UInt8) :=
  .ofPairs ((fs.filesUnder directory).filterMap fun (way, octets) =>
    let path := FileSystem.joinNames way
    if !isSkipped way && wanted path then some (path, octets) else none)

/-- Files that one list of patterns selects and the other does not. -/
def wantedBy (included excluded : List Pattern) (path : String) : Bool :=
  Pattern.selects included path && !Pattern.selects excluded path

def readPatterns (lines : List String) : Except Defect (List Pattern) :=
  (Pattern.ofLines lines).mapError fun
    | .malformed | .unclosed => .invalidPattern
    | .badRange => .backwardRange

/-- The documents that lines of patterns select; where no directory is, there are none. -/
def documents (fs : FileSystem) (cwd : Location) (directory : FilePath)
    (included excluded : List String) : Except Defect (NameMap (List UInt8)) := do
  let inside ← readPatterns included
  let outside ← readPatterns excluded
  match fs.locate cwd directory with
  | .ok l => return if fs.isDirectoryAt l then discover (wantedBy inside outside) fs l else .empty
  | .error .nulInName => .error .nulInName
  | .error _ => return .empty

end EndpointBindings.Discovery
