/-!
Names of files as they are written. Slashes in a row count as one and a single dot counts as
nothing, but two dots stay, since what they lead to hangs on the files.
-/

namespace EndpointBindings

structure FilePath where
  /-- The slashes in front: none, one, or exactly two, which are kept apart. -/
  root : String
  parts : List String
  deriving DecidableEq, Repr

namespace FilePath

/-- Text between slashes. -/
def splitSlashes (cs : List Char) : List (List Char) := cs.splitOn '/'

def ofString (s : String) : FilePath :=
  let cs := s.toList
  let root := match cs with
    | '/' :: '/' :: '/' :: _ => "/"
    | '/' :: '/' :: _ => "//"
    | '/' :: _ => "/"
    | _ => ""
  ⟨root, ((splitSlashes cs).map String.ofList).filter fun p => p != "" && p != "."⟩

/-- The path as it is shown; the one without parts is a dot. -/
def text (p : FilePath) : String :=
  if p.root.isEmpty && p.parts.isEmpty then "." else p.root ++ "/".intercalate p.parts

/-- A path inside another, unless it starts at the root itself. -/
def join (p q : FilePath) : FilePath := if q.root.isEmpty then ⟨p.root, p.parts ++ q.parts⟩ else q

def child (p : FilePath) (name : String) : FilePath := p.join (ofString name)

/-- The last part. -/
def name (p : FilePath) : String := p.parts.getLast?.getD ""

def parent (p : FilePath) : FilePath := { p with parts := p.parts.dropLast }

/-- A name cut before its last dot, if the dot is neither its first nor its last character. -/
def splitSuffix (name : String) : String × String :=
  let cs := name.toList
  let tail := (cs.reverse.takeWhile (· != '.')).reverse
  let head := cs.take (cs.length - tail.length - 1)
  if tail.isEmpty || head.isEmpty then (name, "")
  else (String.ofList head, String.ofList ('.' :: tail))

/-- The last part without its suffix. -/
def stem (p : FilePath) : String := (splitSuffix p.name).1

def suffix (p : FilePath) : String := (splitSuffix p.name).2

end FilePath

/-- The name that a file gives to the endpoint in it. -/
def endpointNameFor (path : String) : String := (FilePath.ofString path).stem

end EndpointBindings
