import EndpointBindings.Defect

/-!
A place in a YAML text: what follows it, and its line and column, on which the structure of the text
depends.
-/

namespace EndpointBindings.Yaml

/-- Why a text gives no value. -/
inductive Fault where
  | malformed
  | tooDeep
  | defect (defect : Defect)
  deriving DecidableEq, Repr

/-- The characters that a text may hold. -/
def isAllowed (c : Char) : Bool :=
  let n := c.toNat
  n == 0x9 || n == 0xa || n == 0xd || (0x20 ≤ n && n ≤ 0x7e) || n == 0x85 ||
    (0xa0 ≤ n && n ≤ 0xd7ff) || (0xe000 ≤ n && n ≤ 0xfffd) || 0x10000 ≤ n

def isBreak (c : Char) : Bool :=
  c == '\n' || c == '\r' || c == '\u0085' || c == '\u2028' || c == '\u2029'

def isSpaceOrTab (c : Char) : Bool := c == ' ' || c == '\t'

/-- The characters that end a word. -/
def isGap (c : Char) : Bool := isSpaceOrTab c || isBreak c

/-- Whether a word ends here: at a gap or at the end of the text. -/
def atGap : List Char → Bool
  | [] => true
  | c :: _ => isGap c

/-- Whether a line ends here. -/
def atLineEnd : List Char → Bool
  | [] => true
  | c :: _ => isBreak c

/-- Whether a blank, or the end of a line, comes next. -/
def atSpaceOrLineEnd : List Char → Bool
  | [] => true
  | c :: _ => c == ' ' || isBreak c

/-- Whether three of the given marks stand here as a word. -/
def atMarker (mark : Char) : List Char → Bool
  | a :: b :: c :: rest => a == mark && b == mark && c == mark && atGap rest
  | _ => false

/-- Whether a document starts or ends here, if here is the start of a line. -/
def atSeparator (cs : List Char) : Bool := atMarker '-' cs || atMarker '.' cs

structure Cursor where
  rest : List Char
  /-- How many characters follow. -/
  left : Nat
  index : Nat
  line : Nat
  column : Nat
  left_eq : left = rest.length

namespace Cursor

def start (text : List Char) : Cursor := ⟨text, text.length, 0, 0, 0, rfl⟩

/-- The place after one more character. A carriage return before a line feed ends no line. -/
def step (c : Cursor) : Cursor :=
  match h : c.rest with
  | [] => c
  | ch :: more =>
    have left_eq : c.left - 1 = more.length := by simp [c.left_eq, h]
    if isBreak ch && !(ch == '\r' && more.head? == some '\n') then
      ⟨more, c.left - 1, c.index + 1, c.line + 1, 0, left_eq⟩
    else
      let column := if ch == '\ufeff' then c.column else c.column + 1
      ⟨more, c.left - 1, c.index + 1, c.line, column, left_eq⟩

def skip (c : Cursor) : Nat → Cursor
  | 0 => c
  | n + 1 => c.step.skip n

def skipWhile (p : Char → Bool) (c : Cursor) : Cursor := c.skip (c.rest.takeWhile p).length

def skipSpaces (c : Cursor) : Cursor := c.skipWhile (· == ' ')

/-- The place after the rest of the line. -/
def skipLine (c : Cursor) : Cursor := c.skipWhile (!isBreak ·)

/-- A comment, if one starts here. -/
def skipComment (c : Cursor) : Cursor := if c.rest.head? == some '#' then c.skipLine else c

/-- The line end that stands here, if any, and the place after it. All but two of them count as a
line feed. -/
def lineBreak? (c : Cursor) : Option (Char × Cursor) :=
  match c.rest with
  | '\r' :: '\n' :: _ => some ('\n', c.skip 2)
  | ch :: _ =>
    if ch == '\u2028' || ch == '\u2029' then some (ch, c.step)
    else if isBreak ch then some ('\n', c.step)
    else none
  | [] => none

end Cursor

/-- The text that line ends between two parts of a scalar stand for: one of them is a blank. -/
def fold (first : Char) (more : List Char) : List Char :=
  if first ≠ '\n' then first :: more
  else if more.isEmpty then [' ']
  else more

end EndpointBindings.Yaml
