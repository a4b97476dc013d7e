import EndpointBindings.Yaml.Token
import EndpointBindings.Yaml.Plain
import EndpointBindings.Yaml.Quoted

/-!
Reading tokens. Whether a scalar is a key shows only at the colon after it, so places where a key
may have started are remembered, and the sign of the key is put there afterwards.
-/

namespace EndpointBindings.Yaml

/-- A place where a key may have started: how many tokens stand before it, and whether nothing but a
key may stand there. -/
structure KeyPlace where
  count : Nat
  required : Bool
  index : Nat
  line : Nat
  column : Nat

structure Tokenizer where
  cursor : Cursor
  /-- How many brackets are open. -/
  flowLevel : Nat
  /-- The column of the innermost block, and of those around it. -/
  indent : Int
  outer : List Int
  /-- Whether a key may start here. -/
  allowKey : Bool
  /-- The possible keys by the number of open brackets around them. -/
  keys : List (Nat × KeyPlace)
  /-- The tokens so far, the latest first, and their number. -/
  tokens : List Token
  count : Nat

namespace Tokenizer

def start (text : List Char) : Tokenizer :=
  { cursor := .start text, flowLevel := 0, indent := -1, outer := [], allowKey := true, keys := [],
    tokens := [], count := 0 }

def inFlow (s : Tokenizer) : Bool := s.flowLevel != 0

def push (s : Tokenizer) (t : Token) : Tokenizer :=
  { s with tokens := t :: s.tokens, count := s.count + 1 }

/-- Puts a token where `place` tokens stand before it. -/
def insertAt (s : Tokenizer) (place : Nat) (t : Token) : Tokenizer :=
  let later := s.count - place
  { s with tokens := s.tokens.take later ++ t :: s.tokens.drop later, count := s.count + 1 }

/-- How far back the start of a key may lie. -/
def maxKeyLength : Nat := 1024

def isStale (s : Tokenizer) (k : KeyPlace) : Bool :=
  k.line != s.cursor.line || maxKeyLength < s.cursor.index - k.index

/-- Forgets the keys that can no longer be completed. -/
def dropStale (s : Tokenizer) : Except Fault Tokenizer :=
  if s.keys.any fun (_, k) => s.isStale k && k.required then .error .malformed
  else .ok { s with keys := s.keys.filter fun (_, k) => !s.isStale k }

/-- Forgets the possible key inside the current brackets. -/
def forgetKey (s : Tokenizer) : Except Fault Tokenizer :=
  if s.keys.any fun (level, k) => level == s.flowLevel && k.required then .error .malformed
  else .ok { s with keys := s.keys.filter (·.1 != s.flowLevel) }

/-- Remembers that a key may start here. -/
def rememberKey (s : Tokenizer) : Except Fault Tokenizer :=
  if s.allowKey then do
    let s ← s.forgetKey
    let c := s.cursor
    let required := !s.inFlow && s.indent == c.column
    let key := (s.flowLevel, ⟨s.count, required, c.index, c.line, c.column⟩)
    return { s with keys := key :: s.keys }
  else .ok s

/-- Closes the blocks that are deeper than a column. -/
def closeBlocks (column : Int) : List Int → Tokenizer → Tokenizer
  | [], s => s
  | previous :: outer, s =>
    if column < s.indent then
      closeBlocks column outer { s.push .blockEnd with indent := previous, outer := outer }
    else s

def unwind (column : Int) (s : Tokenizer) : Tokenizer :=
  if s.inFlow then s else closeBlocks column s.outer s

/-- Opens a block at a column that is deeper than the current one. -/
def openBlock (s : Tokenizer) (column : Nat) : Option Tokenizer :=
  if s.indent < column then some { s with outer := s.indent :: s.outer, indent := column } else none

/-- Passes blanks, comments and line ends; after a line end outside brackets a key may start. -/
def skipGap : Nat → Tokenizer → Tokenizer
  | 0, s => s
  | fuel + 1, s =>
    let c := s.cursor.skipSpaces.skipComment
    match c.lineBreak? with
    | some (_, next) => skipGap fuel { s with cursor := next, allowKey := s.allowKey || !s.inFlow }
    | none => { s with cursor := c }

/-- Moves past a sign of the given length and adds its token. -/
def take (s : Tokenizer) (length : Nat) (t : Token) : Tokenizer :=
  { s.push t with cursor := s.cursor.skip length }

/-- A sign after which no key may start, and which closes all blocks. -/
def documentSign (s : Tokenizer) (t : Token) : Except Fault Tokenizer := do
  let s ← (s.unwind (-1)).forgetKey
  return ({ s with allowKey := false }).take 3 t

def directiveLine (s : Tokenizer) : Except Fault Tokenizer := do
  let s ← (s.unwind (-1)).forgetKey
  let (d, next) ← directive s.cursor
  return { s.push (.directive d) with allowKey := false, cursor := next }

def openBracket (s : Tokenizer) (t : Token) : Except Fault Tokenizer := do
  let s ← s.rememberKey
  return ({ s with flowLevel := s.flowLevel + 1, allowKey := true }).take 1 t

/-- A closing bracket too many takes the level below zero, where no document goes on. -/
def closeBracket (s : Tokenizer) (t : Token) : Except Fault Tokenizer := do
  let s ← s.forgetKey
  if s.flowLevel = 0 then .error .malformed
  else return ({ s with flowLevel := s.flowLevel - 1, allowKey := false }).take 1 t

def flowSeparator (s : Tokenizer) : Except Fault Tokenizer := do
  let s ← ({ s with allowKey := true }).forgetKey
  return s.take 1 .separator

/-- Opens a block with the given token at the current column, if that is deeper. -/
def startBlock (s : Tokenizer) (t : Token) : Tokenizer :=
  match s.openBlock s.cursor.column with
  | some opened => opened.push t
  | none => s

def blockEntry (s : Tokenizer) : Except Fault Tokenizer := do
  let s ← if s.inFlow then pure s
    else if s.allowKey then pure (s.startBlock .sequenceStart)
    else .error .malformed
  let s ← ({ s with allowKey := true }).forgetKey
  return s.take 1 .entry

/-- The sign of a key that is not a scalar on one line. -/
def keySign (s : Tokenizer) : Except Fault Tokenizer := do
  let s ← if s.inFlow then pure s
    else if s.allowKey then pure (s.startBlock .mappingStart)
    else .error .malformed
  let s ← ({ s with allowKey := !s.inFlow }).forgetKey
  return s.take 1 .key

/-- The sign of a value. If a key may have started, it did. -/
def valueSign (s : Tokenizer) : Except Fault Tokenizer :=
  match s.keys.lookup s.flowLevel with
  | some place =>
    let s := { s with keys := s.keys.filter (·.1 != s.flowLevel) }
    let s := s.insertAt place.count .key
    let s :=
      if s.inFlow then s
      else
        match s.openBlock place.column with
        | some opened => opened.insertAt place.count .mappingStart
        | none => s
    .ok (({ s with allowKey := false }).take 1 .value)
  | none => do
    let s ← if s.inFlow then pure s
      else if s.allowKey then pure (s.startBlock .mappingStart)
      else .error .malformed
    let s ← ({ s with allowKey := !s.inFlow }).forgetKey
    return s.take 1 .value

/-- A token that may start a key and after which none may start. -/
def atom (s : Tokenizer) (read : Cursor → Except Fault (Token × Cursor)) :
    Except Fault Tokenizer := do
  let s ← s.rememberKey
  let (t, next) ← read s.cursor
  return { s.push t with allowKey := false, cursor := next }

def blockText (s : Tokenizer) (folded : Bool) : Except Fault Tokenizer := do
  let s ← ({ s with allowKey := true }).forgetKey
  let (text, next) ← blockScalar folded s.indent s.cursor
  return { s.push (.scalar (String.ofList text) false) with cursor := next }

def plainText (s : Tokenizer) : Except Fault Tokenizer := do
  let s ← s.rememberKey
  let p := plainScalar s.inFlow (s.indent + 1) s.cursor
  return { s.push (.scalar (String.ofList p.text) true) with
    allowKey := p.newLine
    cursor := p.next }

/-- The characters that start no plain scalar, unless as the first of a longer word. -/
def isIndicator (c : Char) : Bool :=
  "-?:,[]\x7b\x7d#&*!|>'\"%@".toList.contains c || c == '\x60'

def startsPlain (inFlow : Bool) (c : Char) (rest : List Char) : Bool :=
  !(isGap c || isIndicator c) ||
    (!atGap rest && (c == '-' || (!inFlow && (c == '?' || c == ':'))))

/-- Reads the token that starts with a character. -/
def readToken (s : Tokenizer) (ch : Char) (rest : List Char) : Except Fault Tokenizer :=
  let c := s.cursor
  let firstColumn := c.column == 0
  let isSign := s.inFlow || atGap rest
  if ch == '%' && firstColumn then s.directiveLine
  else if ch == '-' && firstColumn && atMarker '-' c.rest then s.documentSign .documentStart
  else if ch == '.' && firstColumn && atMarker '.' c.rest then s.documentSign .documentEnd
  else if ch == '[' then s.openBracket .flowSequenceStart
  else if ch == '\x7b' then s.openBracket .flowMappingStart
  else if ch == ']' then s.closeBracket .flowSequenceEnd
  else if ch == '\x7d' then s.closeBracket .flowMappingEnd
  else if ch == ',' then s.flowSeparator
  else if ch == '-' && atGap rest then s.blockEntry
  else if ch == '?' && isSign then s.keySign
  else if ch == ':' && isSign then s.valueSign
  else if ch == '*' then s.atom fun c => do
    let (name, next) ← anchorName c.step
    return (.alias name, next)
  else if ch == '&' then s.atom fun c => do
    let (name, next) ← anchorName c.step
    return (.anchor name, next)
  else if ch == '!' then s.atom fun c => do
    let (tag, next) ← writtenTag c
    return (.tag tag, next)
  else if ch == '|' && !s.inFlow then s.blockText false
  else if ch == '>' && !s.inFlow then s.blockText true
  else if ch == '\'' || ch == '"' then s.atom fun c => do
    let (text, next) ← quotedScalar (ch == '"') c
    return (.scalar (String.ofList text) false, next)
  else if startsPlain s.inFlow ch rest then s.plainText
  else .error .malformed

/-- Reads one token after another up to the end of the text. -/
def run : Nat → Tokenizer → Except Fault Tokenizer
  | 0, s => .ok s
  | fuel + 1, s => do
    let s ← (skipGap (s.cursor.left + 1) s).dropStale
    let s := s.unwind s.cursor.column
    match s.cursor.rest with
    | [] => (s.unwind (-1)).forgetKey
    | ch :: rest => run fuel (← s.readToken ch rest)

end Tokenizer

/-- The text without the mark that may stand in front. -/
def dropMark (text : List Char) : Cursor :=
  let c := Cursor.start text
  if text.head? == some '\ufeff' then c.step else c

/-- The tokens of a text. -/
def tokens (text : List Char) : Except Fault (List Token) :=
  if text.all isAllowed then do
    let s ← Tokenizer.run (text.length + 1) { Tokenizer.start text with cursor := dropMark text }
    return s.tokens.reverse
  else .error .malformed

end EndpointBindings.Yaml
