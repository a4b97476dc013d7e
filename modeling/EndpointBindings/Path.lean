import EndpointBindings.ValueType

/-!
Path templates: literal text and named parts in braces. `chunks` cuts a template at its brace
groups; what it leaves to a literal may still hold a brace that belongs to no group.
-/

namespace EndpointBindings

/-- A named placeholder of a template. -/
structure PathPart where
  name : String
  type : ValueType
  description : Option String
  deriving DecidableEq, Repr

inductive Segment where
  | literal (text : String)
  | part (part : PathPart)
  deriving DecidableEq, Repr

structure PathTemplate where
  raw : String
  segments : List Segment
  deriving DecidableEq, Repr

namespace PathTemplate

/-- The parts in the order of the template. -/
def parts (p : PathTemplate) : List PathPart :=
  p.segments.filterMap fun
    | .literal _ => none
    | .part part => some part

/-- A template cut at its groups, before the groups are looked up. -/
inductive Chunk where
  | literal (text : List Char)
  | group (name : List Char)
  deriving DecidableEq, Repr

/-- A chunk as it stands in the template. -/
def Chunk.render : Chunk → List Char
  | literal text => text
  | group name => '\x7b' :: name ++ ['\x7d']

/-- A literal, unless there is nothing in it. -/
def literalChunk (text : List Char) : List Chunk := if text.isEmpty then [] else [.literal text]

/-- Cuts a template; `text` is the literal so far and `group` what followed the last opening brace
after it, if that may still become a group. -/
def cut (text : List Char) (group : Option (List Char)) : List Char → List Chunk
  | [] =>
    match group with
    | none => literalChunk text
    | some g => literalChunk (text ++ '\x7b' :: g)
  | c :: rest =>
    match group with
    | none => if c = '\x7b' then cut text (some []) rest else cut (text ++ [c]) none rest
    | some g =>
      if c = '\x7b' then cut (text ++ '\x7b' :: g) (some []) rest
      else if c = '\x7d' then literalChunk text ++ .group g :: cut [] none rest
      else cut text (some (g ++ [c])) rest

/-- The literals and groups of a template in order. -/
def chunks (raw : List Char) : List Chunk := cut [] none raw

theorem render_literalChunk (text : List Char) :
    (literalChunk text).flatMap Chunk.render = text := by
  cases text <;> simp [literalChunk, Chunk.render]

theorem flatMap_render_cut (text : List Char) (group : Option (List Char)) (cs : List Char) :
    (cut text group cs).flatMap Chunk.render =
      text ++ (group.elim [] ('\x7b' :: ·)) ++ cs := by
  induction cs generalizing text group with
  | nil => cases group <;> simp [cut, render_literalChunk]
  | cons c rest ih =>
    cases group with
    | none =>
      by_cases h : c = '\x7b' <;> simp [cut, h, ih]
    | some g =>
      by_cases h : c = '\x7b'
      · simp [cut, h, ih]
      · by_cases h' : c = '\x7d'
        · simp [cut, h', ih, render_literalChunk, Chunk.render]
        · simp [cut, h, h', ih]

/-- Cutting loses nothing. -/
theorem flatMap_render_chunks (raw : List Char) : (chunks raw).flatMap Chunk.render = raw := by
  simp [chunks, flatMap_render_cut]

end PathTemplate

end EndpointBindings
