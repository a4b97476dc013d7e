/-!
The pieces of a file pattern, and the paths that they stand for.
-/

namespace EndpointBindings.Pattern

/-- A range of characters in brackets. -/
structure CharRange where
  first : Char
  last : Char
  deriving DecidableEq, Repr

/-- What a piece of a pattern stands for. -/
inductive Atom where
  | char (c : Char)
  /-- One character but a slash. -/
  | anyChar
  /-- Any characters but slashes. -/
  | anyChars
  /-- A whole name. -/
  | anyName
  | oneOf (negated : Bool) (ranges : List CharRange)
  /-- Directories at the start of the path, or none. -/
  | leadingDirectories
  /-- A slash with directories after it, or nothing. -/
  | innerDirectories
  /-- A slash, with anything after it. -/
  | inside
  /-- The end of the path, or a slash with anything after it. -/
  | endOrInside
  /-- Every path. -/
  | anything
  /-- Every path with a slash in it. -/
  | anyInside
  deriving DecidableEq, Repr

def CharRange.contains (r : CharRange) (c : Char) : Bool := r.first ≤ c && c ≤ r.last

/-- Whether `goOn` holds after some characters that are no slashes. -/
def afterChars (goOn : List Char → Bool) : List Char → Bool
  | [] => goOn []
  | c :: rest => goOn (c :: rest) || (c != '/' && afterChars goOn rest)

/-- Whether `goOn` holds after some characters on one line, and `closed` of the last of them. -/
def afterLine (goOn : List Char → Bool) (closed : Char → Bool) : List Char → Bool
  | [] => false
  | c :: rest => (closed c && goOn rest) || (c != '\n' && afterLine goOn closed rest)

/-- Whether atoms stand for a path from its start. -/
def matchAtoms : List Atom → List Char → Bool
  | [], _ => true
  | .char c :: as, d :: rest => c == d && matchAtoms as rest
  | .anyChar :: as, d :: rest => d != '/' && matchAtoms as rest
  | .oneOf negated ranges :: as, d :: rest =>
    (ranges.any (·.contains d) != negated) && matchAtoms as rest
  | .anyName :: as, d :: rest => d != '/' && afterChars (matchAtoms as) rest
  | .anyChars :: as, cs => afterChars (matchAtoms as) cs
  | .leadingDirectories :: as, cs =>
    matchAtoms as cs || (match cs with
      | c :: rest => c != '\n' && afterLine (matchAtoms as) (· == '/') rest
      | [] => false)
  | .innerDirectories :: as, cs =>
    matchAtoms as cs || (match cs with
      | '/' :: rest => afterLine (matchAtoms as) (· != '\n') rest
      | _ => false)
  | .inside :: as, '/' :: rest => matchAtoms as rest
  | .endOrInside :: as, cs =>
    match cs with
    | [] => matchAtoms as []
    | ['\n'] => matchAtoms as ['\n']
    | '/' :: rest => matchAtoms as rest
    | _ => false
  | .anything :: as, cs => cs.any (· != '\n') && matchAtoms as cs
  | .anyInside :: as, cs => cs.contains '/' && matchAtoms as cs
  | _ :: _, _ => false

end EndpointBindings.Pattern
