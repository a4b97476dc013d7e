import EndpointBindings.Yaml.Cursor
import EndpointBindings.Text.Digit

/-!
Scalars in quotes. A line end inside counts as a blank, and empty lines as line ends. Between double
quotes a backslash starts an escape, and takes a line end away.
-/

namespace EndpointBindings.Yaml

open EndpointBindings.Text

/-- The characters that one-letter escapes stand for. -/
def escapes : List (Char × Char) :=
  [('0', '\x00'), ('a', '\x07'), ('b', '\x08'), ('t', '\t'), ('\t', '\t'), ('n', '\n'),
   ('v', '\x0b'), ('f', '\x0c'), ('r', '\r'), ('e', '\x1b'), (' ', ' '), ('"', '"'), ('\\', '\\'),
   ('/', '/'), ('N', '\u0085'), ('_', '\u00a0'), ('L', '\u2028'), ('P', '\u2029')]

/-- The number of hexadecimal digits that an escape takes. -/
def escapeWidth? : Char → Option Nat
  | 'x' => some 2
  | 'u' => some 4
  | 'U' => some 8
  | _ => none

/-- The character of a code point. A surrogate is none, and the replacement character stands in its
place. -/
def charOf? (n : Nat) : Option Char :=
  if n.isValidChar then some (Char.ofNat n) else if n ≤ 0x10ffff then some '\ufffd' else none

/-- Line ends inside quotes, with the blanks around them, after those that were passed, the latest
first. No document may start or end there. -/
def quotedBreaks : Nat → Cursor → List Char → Except Fault (List Char × Cursor)
  | 0, _, _ => .error .malformed
  | fuel + 1, c, passed =>
    if atSeparator c.rest then .error .malformed
    else
      let c := c.skipWhile isSpaceOrTab
      match c.lineBreak? with
      | none => .ok (passed.reverse, c)
      | some (b, next) => quotedBreaks fuel next (b :: passed)

/-- The escape after a backslash. -/
def quotedEscape (c : Cursor) : Except Fault (List Char × Cursor) :=
  match c.rest with
  | [] => .error .malformed
  | e :: more =>
    match escapes.lookup e with
    | some ch => .ok ([ch], c.step)
    | none =>
      match escapeWidth? e with
      | some width =>
        let digits := more.take width
        if digits.length < width then .error .malformed
        else
          match (hexValue digits).bind charOf? with
          | some ch => .ok ([ch], c.skip (width + 1))
          | none => .error .malformed
      | none =>
        match c.lineBreak? with
        | some (_, next) => quotedBreaks (next.left + 1) next []
        | none => .error .malformed

/-- Blanks and line ends between words, and the text that they stand for. -/
def quotedGap (c : Cursor) : Except Fault (List Char × Cursor) :=
  let spaces := c.rest.takeWhile isSpaceOrTab
  let c := c.skip spaces.length
  match c.lineBreak? with
  | none => .ok (spaces, c)
  | some (first, next) => do
    let (more, next) ← quotedBreaks (next.left + 1) next []
    return (fold first more, next)

/-- The rest of a scalar after its opening quote, with the text so far, last character first. -/
def quotedRest (double : Bool) : Nat → List Char → Cursor → Except Fault (List Char × Cursor)
  | 0, _, _ => .error .malformed
  | fuel + 1, text, c =>
    match c.rest with
    | [] => .error .malformed
    | ch :: more =>
      if !double && ch == '\'' then
        if more.head? == some '\'' then quotedRest double fuel ('\'' :: text) (c.skip 2)
        else .ok (text.reverse, c.step)
      else if double && ch == '"' then .ok (text.reverse, c.step)
      else if double && ch == '\\' then
        match quotedEscape c.step with
        | .ok (found, next) => quotedRest double fuel (found.reverse ++ text) next
        | .error fault => .error fault
      else if isGap ch then
        match quotedGap c with
        | .ok (found, next) => quotedRest double fuel (found.reverse ++ text) next
        | .error fault => .error fault
      else
        let run := c.rest.takeWhile fun d => !(isGap d || d == '\'' || d == '"' || d == '\\')
        let run := if run.isEmpty then [ch] else run
        quotedRest double fuel (run.reverse ++ text) (c.skip run.length)

/-- The scalar whose opening quote stands here. -/
def quotedScalar (double : Bool) (c : Cursor) : Except Fault (List Char × Cursor) :=
  quotedRest double c.left [] c.step

end EndpointBindings.Yaml
