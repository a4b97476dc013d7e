import EndpointBindings.Yaml.Cursor

/-!
Scalars without quotes. They end at a comment, at a colon before a gap, at a line that is not
indented enough, and inside brackets also at the signs of brackets.
-/

namespace EndpointBindings.Yaml

def isFlowSign (c : Char) : Bool := c == ',' || c == '[' || c == ']' || c == '\x7b' || c == '\x7d'

/-- Whether a colon before the given text is the sign of a mapping. -/
def endsKey (flow : Bool) : List Char → Bool
  | [] => true
  | c :: _ => isGap c || (flow && isFlowSign c)

/-- The characters up to the next gap or sign. -/
def plainRun (flow : Bool) : List Char → List Char
  | [] => []
  | c :: rest =>
    if isGap c || (c == ':' && endsKey flow rest) || (flow && (c == '?' || isFlowSign c)) then []
    else c :: plainRun flow rest

/-- The line ends of empty lines, after those that were passed, the latest first. Nothing is the
answer when a document starts or ends there. -/
def emptyLines : Nat → Cursor → List Char → Option (List Char) × Cursor
  | 0, c, passed => (some passed.reverse, c)
  | fuel + 1, c, passed =>
    let c := c.skipSpaces
    match c.lineBreak? with
    | none => (some passed.reverse, c)
    | some (b, next) =>
      if atSeparator next.rest then (none, next) else emptyLines fuel next (b :: passed)

/-- What separates two runs. -/
structure Separation where
  /-- The text that it stands for, nothing at the end of a document. -/
  text : Option (List Char)
  /-- Whether it holds a line end. -/
  newLine : Bool
  next : Cursor

def separation (c : Cursor) : Separation :=
  let spaces := c.rest.takeWhile (· == ' ')
  let c := c.skip spaces.length
  match c.lineBreak? with
  | none => ⟨some spaces, false, c⟩
  | some (first, next) =>
    if atSeparator next.rest then ⟨none, true, next⟩
    else
      match emptyLines next.left next [] with
      | (some more, next) => ⟨some (fold first more), true, next⟩
      | (none, next) => ⟨none, true, next⟩

/-- A scalar that was read, and whether a line ended after its last character. -/
structure PlainScalar where
  text : List Char
  newLine : Bool
  next : Cursor

/-- The runs of a scalar from the given place, after the text `before` and the text `gap` between
them, both with the last character first. -/
def plainRuns (flow : Bool) (indent : Int) :
    Nat → (before gap : List Char) → (newLine : Bool) → Cursor → PlainScalar
  | 0, before, _, newLine, c => ⟨before.reverse, newLine, c⟩
  | fuel + 1, before, gap, newLine, c =>
    let run := plainRun flow c.rest
    if c.rest.head? == some '#' || run.isEmpty then ⟨before.reverse, newLine, c⟩
    else
      let before := run.reverse ++ (gap ++ before)
      let s := separation (c.skip run.length)
      match s.text with
      | none => ⟨before.reverse, s.newLine, s.next⟩
      | some gap =>
        if gap.isEmpty || s.next.rest.head? == some '#' || (!flow && s.next.column < indent) then
          ⟨before.reverse, s.newLine, s.next⟩
        else plainRuns flow indent fuel before gap.reverse s.newLine s.next

/-- A scalar that starts here; `indent` is the least column of its further lines. -/
def plainScalar (flow : Bool) (indent : Int) (c : Cursor) : PlainScalar :=
  plainRuns flow indent (c.left + 1) [] [] false c

end EndpointBindings.Yaml
