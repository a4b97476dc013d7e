import EndpointBindings.Yaml.Block
import EndpointBindings.Number.Reading
import EndpointBindings.Text.Utf8

/-!
Names in a YAML text: anchors, tags and the directives that declare tag handles.
-/

namespace EndpointBindings.Yaml

open EndpointBindings.Text

def isNameChar (c : Char) : Bool := c.isAlphanum || c == '-' || c == '_'

def isUriChar (c : Char) : Bool := c.isAlphanum || "-;/?:@&=+$,_.!~*'()[]".toList.contains c

/-- Where an anchor's name may end. -/
def atAnchorEnd : List Char → Bool
  | [] => true
  | c :: _ => isGap c || "?:,]\x7d%@".toList.contains c || c == '\x60'

/-- The name of an anchor or an alias, after its sign. -/
def anchorName (c : Cursor) : Except Fault (String × Cursor) :=
  let name := c.rest.takeWhile isNameChar
  let next := c.skip name.length
  if name.isEmpty || !atAnchorEnd next.rest then .error .malformed
  else .ok (String.ofList name, next)

/-- A tag as it is written: a suffix, in most cases after a handle. -/
structure WrittenTag where
  handle : Option String
  suffix : String
  deriving DecidableEq, Repr

/-- A handle: a lone mark, or a name between two marks. -/
def tagHandle (c : Cursor) : Except Fault (String × Cursor) :=
  match c.rest with
  | '!' :: rest =>
    if rest.head? == some ' ' then .ok ("!", c.step)
    else
      let name := rest.takeWhile isNameChar
      match rest.drop name.length with
      | '!' :: _ => .ok (String.ofList ('!' :: name ++ ['!']), c.skip (name.length + 2))
      | _ => .error .malformed
  | _ => .error .malformed

/-- Octets written as two hexadecimal digits after a percent sign. -/
def percentOctets : List Char → Except Fault (List UInt8)
  | '%' :: a :: b :: rest =>
    match hexValue [a, b] with
    | some n => do return n.toUInt8 :: (← percentOctets rest)
    | none => .error .malformed
  | '%' :: _ => .error .malformed
  | _ => .ok []

/-- The characters of a tag, with escaped octets read as UTF-8, after the text so far, whose last
character is first. -/
def uriChars : Nat → List Char → Cursor → Except Fault (List Char × Cursor)
  | 0, text, c => .ok (text.reverse, c)
  | fuel + 1, text, c =>
    match c.rest with
    | '%' :: _ => do
      let octets ← percentOctets c.rest
      let decoded ← (Utf8.decode octets).mapError fun _ => Fault.malformed
      uriChars fuel (decoded.reverse ++ text) (c.skip (3 * octets.length))
    | ch :: _ => if isUriChar ch then uriChars fuel (ch :: text) c.step else .ok (text.reverse, c)
    | [] => .ok (text.reverse, c)

def tagUri (c : Cursor) : Except Fault (String × Cursor) := do
  let (text, next) ← uriChars (c.left + 1) [] c
  if next.index == c.index then .error .malformed else return (String.ofList text, next)

/-- Whether a second mark follows in the same word. -/
def usesHandle (cs : List Char) : Bool :=
  (cs.takeWhile fun c => !(c == ' ' || isBreak c)).contains '!'

/-- The tag whose mark stands here. -/
def writtenTag (c : Cursor) : Except Fault (WrittenTag × Cursor) := do
  let (tag, next) ← match c.rest.drop 1 with
    | '<' :: _ => do
      let (suffix, next) ← tagUri (c.skip 2)
      if next.rest.head? == some '>' then pure (⟨none, suffix⟩, next.step) else .error .malformed
    | rest =>
      if atGap rest then pure (⟨none, "!"⟩, c.step)
      else do
        let (handle, next) ← if usesHandle rest then tagHandle c else pure ("!", c.step)
        let (suffix, next) ← tagUri next
        pure (⟨some handle, suffix⟩, next)
  if atSpaceOrLineEnd next.rest then return (tag, next) else .error .malformed

inductive Directive where
  | version (major : Nat)
  | tag (handle leading : String)
  | other
  deriving DecidableEq, Repr

def directiveNumber (c : Cursor) : Except Fault (Nat × Cursor) :=
  let digits := c.rest.takeWhile Char.isDigit
  if digits.isEmpty || Number.maxDigits < digits.length then .error .malformed
  else .ok (ofDigits 10 (digits.map fun d => d.toNat - '0'.toNat), c.skip digits.length)

def versionDirective (c : Cursor) : Except Fault (Directive × Cursor) := do
  let (major, next) ← directiveNumber c.skipSpaces
  if next.rest.head? != some '.' then .error .malformed
  else
    let (_, next) ← directiveNumber next.step
    if atSpaceOrLineEnd next.rest then return (.version major, next) else .error .malformed

def tagDirective (c : Cursor) : Except Fault (Directive × Cursor) := do
  let (handle, next) ← tagHandle c.skipSpaces
  if next.rest.head? != some ' ' then .error .malformed
  else
    let (leading, next) ← tagUri next.skipSpaces
    if atSpaceOrLineEnd next.rest then return (.tag handle leading, next) else .error .malformed

/-- The directive whose sign stands here, with the rest of its line. -/
def directive (c : Cursor) : Except Fault (Directive × Cursor) := do
  let c := c.step
  let name := c.rest.takeWhile isNameChar
  let next := c.skip name.length
  if name.isEmpty || !atSpaceOrLineEnd next.rest then .error .malformed
  else
    let (found, next) ←
      if String.ofList name == "YAML" then versionDirective next
      else if String.ofList name == "TAG" then tagDirective next
      else pure (.other, next.skipLine)
    return (found, ← endLine next)

end EndpointBindings.Yaml
