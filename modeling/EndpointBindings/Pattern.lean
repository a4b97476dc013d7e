import EndpointBindings.Pattern.Atom
import EndpointBindings.Text.Blank

/-!
Patterns that select files by their paths. A pattern without a slash inside names a file or a
directory at any depth, a slash at its end leaves directories only, and two stars stand for any
number of directories. What a pattern selects, it selects with all that is in it.
-/

namespace EndpointBindings

open EndpointBindings.Text

namespace Pattern

/-- Text up to a closing bracket, and what follows it. -/
def beforeClosing (cs : List Char) : Option (List Char × List Char) :=
  if cs.contains ']' then some (cs.takeWhile (· != ']'), (cs.dropWhile (· != ']')).drop 1) else none

/-- The text in brackets with its negation, and what follows. A closing bracket that comes first is
part of the text. -/
def bracketText (cs : List Char) : Option (Bool × List Char × List Char) :=
  let (negated, body) := match cs with
    | '!' :: rest | '^' :: rest => (true, rest)
    | _ => (false, cs)
  match body with
  | ']' :: rest => (beforeClosing rest).map fun (inner, tail) => (negated, ']' :: inner, tail)
  | _ => (beforeClosing body).map fun (inner, tail) => (negated, inner, tail)

/-- Why a text is no pattern. -/
inductive Fault where
  /-- Nothing is left of it, or a backslash stands at the end of a name. -/
  | malformed
  /-- A bracket is not closed. -/
  | unclosed
  /-- A range runs backwards. -/
  | badRange
  deriving DecidableEq, Repr

/-- The ranges of a text in brackets; a dash between two characters makes a range. -/
def ranges : List Char → List CharRange
  | [] => []
  | a :: '-' :: b :: rest => ⟨a, b⟩ :: ranges rest
  | a :: rest => ⟨a, a⟩ :: ranges rest

/-- The atoms of a name. A backslash takes the meaning from the next character. -/
def nameAtoms : Nat → List Char → Except Fault (List Atom)
  | _, [] => .ok []
  | 0, _ => .ok []
  | fuel + 1, c :: rest =>
    match c with
    | '\\' =>
      match rest with
      | [] => .error .malformed
      | d :: more => do return .char d :: (← nameAtoms fuel more)
    | '*' => do return .anyChars :: (← nameAtoms fuel rest)
    | '?' => do return .anyChar :: (← nameAtoms fuel rest)
    | '[' =>
      match bracketText rest with
      | none => .error .unclosed
      | some (negated, inner, tail) => do
        return .oneOf negated (ranges inner) :: (← nameAtoms fuel tail)
    | _ => do return .char c :: (← nameAtoms fuel rest)

/-- A part of a pattern between slashes. -/
inductive Part where
  | directories
  | name (text : List Char)
  deriving DecidableEq, Repr

def Part.ofText (cs : List Char) : Part := if cs = ['*', '*'] then .directories else .name cs

/-- Parts with no two runs of directories in a row. -/
def collapse : List Part → List Part
  | .directories :: .directories :: rest => collapse (.directories :: rest)
  | p :: rest => p :: collapse rest
  | [] => []

/-- The atoms of parts; `slash` tells whether a slash stands before the next name. -/
def partAtoms (first slash : Bool) : List Part → Except Fault (List Atom)
  | [] => .ok []
  | .directories :: rest =>
    if first then do return .leadingDirectories :: (← partAtoms false false rest)
    else if rest.isEmpty then .ok [.inside]
    else do return .innerDirectories :: (← partAtoms false true rest)
  | .name text :: rest => do
    let name ← if text = ['*'] then .ok [.anyName] else nameAtoms text.length text
    let last := if rest.isEmpty then [Atom.endOrInside] else []
    return (if slash then [Atom.char '/'] else []) ++ name ++ last ++ (← partAtoms false true rest)

/-- Parts from the top of the tree. A part alone stands at any depth, and an empty last part for
all that is inside. -/
def anchor (texts : List (List Char)) : List Part :=
  let parts := texts.map Part.ofText
  let rooted := match parts with
    | .name [] :: rest => rest
    | [.directories] | [.directories, .name []] => parts
    | [_] | [_, .name []] => .directories :: parts
    | _ => parts
  match rooted.reverse with
  | .name [] :: rest => collapse (Part.directories :: rest).reverse
  | _ => collapse rooted

def Atom.hasBadRange : Atom → Bool
  | oneOf _ found => found.any fun r => r.last < r.first
  | _ => false

/-- Atoms none of which has a backward range. -/
def requireRanges (atoms : List Atom) : Except Fault (List Atom) :=
  if atoms.any Atom.hasBadRange then .error .badRange else .ok atoms

/-- The atoms of a pattern without the sign of negation. -/
def readAtoms (cs : List Char) : Except Fault (List Atom) :=
  let texts := cs.splitOn '/'
  let directoriesOnly := texts.getLast? == some []
  match anchor texts with
  | [] => .error .malformed
  | [.directories] => .ok [if directoriesOnly then .anyInside else .anything]
  | [.directories, .name ['*']] => .ok [.anything]
  | [.directories, .name ['*'], .directories] => .ok [.anyInside]
  | parts => partAtoms true false parts >>= requireRanges

end Pattern

/-- A pattern adds the files that it stands for, or takes them away. -/
structure Pattern where
  adds : Bool
  atoms : List Pattern.Atom
  deriving DecidableEq, Repr

namespace Pattern

/-- A line without the blanks at its end, unless a backslash keeps them. -/
def dropTrailingBlanks (cs : List Char) : List Char :=
  match cs.reverse with
  | ' ' :: '\\' :: _ => cs
  | _ => trimRight cs

/-- A pattern of the given sense; a text with a bracket that is not closed is none. -/
def ofText (adds : Bool) (cs : List Char) : Except Fault (Option Pattern) :=
  match readAtoms cs with
  | .ok atoms => .ok (some ⟨adds, atoms⟩)
  | .error .unclosed => .ok none
  | .error fault => .error fault

/-- The pattern of a line; comments, empty lines and a lone slash are none. -/
def ofLine (line : String) : Except Fault (Option Pattern) :=
  match dropTrailingBlanks line.toList with
  | [] => .ok none
  | ['/'] => .ok none
  | '#' :: _ => .ok none
  | '!' :: rest => ofText false rest
  | cs => ofText true cs

def ofLines (lines : List String) : Except Fault (List Pattern) := do
  return (← lines.mapM ofLine).filterMap id

def appliesTo (p : Pattern) (path : String) : Bool := matchAtoms p.atoms path.toList

/-- Whether a list of patterns selects a path: the last one that applies decides. -/
def selects (ps : List Pattern) (path : String) : Bool :=
  match ps.reverse.find? (·.appliesTo path) with
  | some p => p.adds
  | none => false

end Pattern

end EndpointBindings
