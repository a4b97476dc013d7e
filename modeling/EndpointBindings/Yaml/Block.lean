import EndpointBindings.Yaml.Cursor

/-!
Scalars given by indented lines. A literal keeps its line ends; a folded scalar joins lines by
blanks. What becomes of the line ends after the last line is for the header to say.
-/

namespace EndpointBindings.Yaml

inductive Chomping where
  | strip
  | clip
  | keep
  deriving DecidableEq, Repr

structure BlockHeader where
  chomping : Chomping
  /-- The indentation below that of the surroundings, if it is given. -/
  increment : Option Nat

def chompingSign? : Char → Option Chomping
  | '+' => some .keep
  | '-' => some .strip
  | _ => none

/-- The indentation digit that stands here, which is not zero. -/
def readIncrement (c : Cursor) : Except Fault (Option Nat × Cursor) :=
  match c.rest with
  | [] => .ok (none, c)
  | d :: _ =>
    if d == '0' then .error .malformed
    else if d.isDigit then .ok (some (d.toNat - '0'.toNat), c.step)
    else .ok (none, c)

/-- The sign for line ends that stands here. -/
def readChomping (c : Cursor) : Option Chomping × Cursor :=
  match c.rest.head?.bind chompingSign? with
  | some chomping => (some chomping, c.step)
  | none => (none, c)

/-- The rest of a line that may hold nothing but a comment. -/
def endLine (c : Cursor) : Except Fault Cursor :=
  let c := c.skipSpaces.skipComment
  if atLineEnd c.rest then .ok ((c.lineBreak?.map (·.2)).getD c) else .error .malformed

/-- The header after the sign of the scalar: the two marks in either order, then a comment. -/
def blockHeader (c : Cursor) : Except Fault (BlockHeader × Cursor) := do
  let (chomping, increment, c) ← match readChomping c with
    | (some chomping, c) => do
      let (increment, c) ← readIncrement c
      pure (chomping, increment, c)
    | (none, c) => do
      let (increment, c) ← readIncrement c
      match increment with
      | none => pure (Chomping.clip, none, c)
      | some _ =>
        let (chomping, c) := readChomping c
        pure (chomping.getD .clip, increment, c)
  if atSpaceOrLineEnd c.rest then return (⟨chomping, increment⟩, ← endLine c)
  else .error .malformed

/-- Empty lines in front of the first line, after the line ends that were passed, the latest first,
and the deepest indentation among them. -/
def blockIndentation : Nat → Cursor → List Char → Nat → List Char × Nat × Cursor
  | 0, c, passed, deepest => (passed.reverse, deepest, c)
  | fuel + 1, c, passed, deepest =>
    let c := c.skipSpaces
    let deepest := max deepest c.column
    match c.lineBreak? with
    | none => (passed.reverse, deepest, c)
    | some (b, next) => blockIndentation fuel next (b :: passed) deepest

/-- Blanks up to a column. -/
def skipIndentation (indent : Nat) (c : Cursor) : Cursor :=
  c.skip (min (indent - c.column) (c.rest.takeWhile (· == ' ')).length)

/-- Empty lines, up to the first character of the next line, after the line ends that were passed,
the latest first. -/
def blockBreaks (indent : Nat) : Nat → Cursor → List Char → List Char × Cursor
  | 0, c, passed => (passed.reverse, c)
  | fuel + 1, c, passed =>
    let c := skipIndentation indent c
    match c.lineBreak? with
    | none => (passed.reverse, c)
    | some (b, next) => blockBreaks indent fuel next (b :: passed)

/-- The lines of a scalar, then its last line end, the empty lines after it and the place behind. -/
structure BlockText where
  text : List Char
  lastBreak : List Char
  trailing : List Char
  next : Cursor

def startsText : List Char → Bool
  | [] => true
  | c :: _ => !isSpaceOrTab c

/-- The lines from here on, after empty lines that are still to be counted. -/
def blockLines (folded : Bool) (indent : Nat) : Nat → Cursor → List Char → BlockText
  | 0, c, breaks => ⟨[], [], breaks, c⟩
  | fuel + 1, c, breaks =>
    if c.column == indent && !c.rest.isEmpty then
      let line := c.rest.takeWhile (!isBreak ·)
      let afterLine := c.skip line.length
      let (lastBreak, next) := match afterLine.lineBreak? with
        | some (b, next) => ([b], next)
        | none => ([], afterLine)
      let (more, next) := blockBreaks indent (next.left + 1) next []
      if next.column == indent && !next.rest.isEmpty then
        let glue :=
          if folded && lastBreak == ['\n'] && startsText c.rest && startsText next.rest then
            if more.isEmpty then [' '] else []
          else lastBreak
        let tail := blockLines folded indent fuel next more
        { tail with text := breaks ++ line ++ glue ++ tail.text }
      else ⟨breaks ++ line, lastBreak, more, next⟩
    else ⟨[], [], breaks, c⟩

def chomp (chomping : Chomping) (b : BlockText) : List Char :=
  match chomping with
  | .strip => b.text
  | .clip => b.text ++ b.lastBreak
  | .keep => b.text ++ b.lastBreak ++ b.trailing

/-- The scalar whose sign stands here, inside surroundings of the given indentation. -/
def blockScalar (folded : Bool) (surroundings : Int) (c : Cursor) :
    Except Fault (List Char × Cursor) := do
  let (header, c) ← blockHeader c.step
  let least := (max 1 (surroundings + 1)).toNat
  let fuel := c.left + 1
  let (indent, breaks, c) := match header.increment with
    | none =>
      let (breaks, deepest, c) := blockIndentation fuel c [] 0
      (max least deepest, breaks, c)
    | some increment =>
      let indent := least + increment - 1
      let (breaks, c) := blockBreaks indent fuel c []
      (indent, breaks, c)
  let b := blockLines folded indent fuel c breaks
  return (chomp header.chomping b, b.next)

end EndpointBindings.Yaml
