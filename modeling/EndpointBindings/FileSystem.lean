import EndpointBindings.FilePath
import EndpointBindings.Defect

/-!
Files and directories as a value. A place is the list of names that lead to it from the root, and
the root is always a directory.
-/

namespace EndpointBindings

abbrev Location := List String

inductive Node where
  | file (octets : List UInt8)
  | directory
  deriving DecidableEq, Repr

structure FileSystem where
  nodes : List (Location × Node)

namespace FileSystem

def empty : FileSystem := ⟨[]⟩

/-- What stands at a place. -/
def get? (fs : FileSystem) (l : Location) : Option Node :=
  if l = [] then some .directory else fs.nodes.lookup l

def isDirectoryAt (fs : FileSystem) (l : Location) : Bool := fs.get? l == some .directory

def replace (l : Location) (n : Node) : List (Location × Node) → List (Location × Node)
  | [] => [(l, n)]
  | e :: rest => if e.1 = l then (l, n) :: rest else e :: replace l n rest

/-- Puts a file or a directory at a place, whatever stood there. -/
def put (fs : FileSystem) (l : Location) (n : Node) : FileSystem := ⟨replace l n fs.nodes⟩

/-- Takes away what stands at a place, with all that is in it. -/
def remove (fs : FileSystem) (l : Location) : FileSystem :=
  ⟨fs.nodes.filter fun e => !l.isPrefixOf e.1⟩

theorem lookup_replace (l m : Location) (n : Node) (nodes : List (Location × Node)) :
    (replace l n nodes).lookup m = if m = l then some n else nodes.lookup m := by
  induction nodes with
  | nil =>
    by_cases h : m = l
    · simp [replace, h]
    · simp [replace, List.lookup_cons, h, beq_eq_false_iff_ne.2 h]
  | cons e rest ih =>
    obtain ⟨k, v⟩ := e
    by_cases hk : k = l
    · by_cases h : m = l
      · simp [replace, hk, h]
      · simp [replace, List.lookup_cons, hk, h, beq_eq_false_iff_ne.2 h]
    · by_cases h : m = k
      · simp [replace, h, hk]
      · simp [replace, List.lookup_cons, hk, ih, beq_eq_false_iff_ne.2 h]

/-- A write changes the place that is written and no other. -/
theorem get?_put (fs : FileSystem) {l : Location} (m : Location) (n : Node) (h : l ≠ []) :
    (fs.put l n).get? m = if m = l then some n else fs.get? m := by
  by_cases hm : m = []
  · subst hm
    have : ¬([] : Location) = l := fun h' => h h'.symm
    simp [get?, this]
  · simp [get?, hm, put, lookup_replace]

/-- The most octets in a name. -/
def maxNameLength : Nat := 255

/-- The least octets in a path that are too many. -/
def pathLimit : Nat := 4096

/-- The place that a path leads to from another, for every directory on the way; the last name need
not be there. -/
def follow (fs : FileSystem) (l : Location) : List String → Except Defect Location
  | [] => .ok l
  | name :: rest =>
    match fs.get? l with
    | some .directory =>
      if maxNameLength < name.utf8ByteSize then .error .nameTooLong
      else follow fs (if name = ".." then l.dropLast else l ++ [name]) rest
    | some (.file _) => .error .notDirectory
    | none => .error .noSuchFile

/-- The place of a path for a program that works in a directory. -/
def locate (fs : FileSystem) (cwd : Location) (p : FilePath) : Except Defect Location :=
  if p.parts.any (·.contains '\x00') then .error .nulInName
  else if pathLimit ≤ p.text.utf8ByteSize then .error .nameTooLong
  else fs.follow (if p.root.isEmpty then cwd else []) p.parts

/-- What a path leads to, if anything. Only a name that is too long cannot even be looked up. -/
def lookup (fs : FileSystem) (cwd : Location) (p : FilePath) : Except Defect (Option Node) :=
  match fs.locate cwd p with
  | .ok l => .ok (fs.get? l)
  | .error .nameTooLong => .error .nameTooLong
  | .error _ => .ok none

/-- The octets of a file, if the path leads to one. -/
def octets? (fs : FileSystem) (cwd : Location) (p : FilePath) :
    Except Defect (Option (List UInt8)) := do
  match ← fs.lookup cwd p with
  | some (.file octets) => return some octets
  | _ => return none

def isDirectory (fs : FileSystem) (cwd : Location) (p : FilePath) : Except Defect Bool := do
  return (← fs.lookup cwd p) == some .directory

/-- The way from a directory to a place inside it. -/
def relative? (directory l : Location) : Option Location :=
  if directory.isPrefixOf l then some (l.drop directory.length) else none

/-- All files inside a directory, by the way to them from there. -/
def filesUnder (fs : FileSystem) (directory : Location) : List (Location × List UInt8) :=
  fs.nodes.filterMap fun (l, n) =>
    match n with
    | .file octets => (relative? directory l).map fun r => (r, octets)
    | .directory => none

/-- The directories inside a directory that hold nothing, by the way to them from there. -/
def emptyDirectoriesUnder (fs : FileSystem) (directory : Location) : List Location :=
  (fs.nodes.filterMap fun (l, n) =>
    match n with
    | .directory =>
      if fs.nodes.any fun e => e.1 != l && l.isPrefixOf e.1 then none else relative? directory l
    | .file _ => none).filter (· != [])

/-- Names with slashes between them. -/
def joinNames (l : Location) : String := "/".intercalate l

end FileSystem

end EndpointBindings
