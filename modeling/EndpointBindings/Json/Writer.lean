import EndpointBindings.Value.Display
import EndpointBindings.Text.Escaped

/-!
Values as JSON text, one item or member a line, indented by two blanks a level.
-/

namespace EndpointBindings.Json

open EndpointBindings.Text

def newline (depth : Nat) : String := String.ofList ('\n' :: List.replicate (2 * depth) ' ')

/-- Items between brackets, each on a line of its own. -/
def block (opening closing : String) (depth : Nat) (items : List String) : String :=
  if items.isEmpty then opening ++ closing
  else opening ++ newline (depth + 1) ++ ("," ++ newline (depth + 1)).intercalate items ++
    newline depth ++ closing

/-- Numbers that are not finite are written as words. -/
def writeFloat (x : Number.Binary64) : String :=
  match x with
  | .nan => "NaN"
  | .infinite negative => if negative then "-Infinity" else "Infinity"
  | _ => x.text

def writeKey : Value → String
  | .null => Escaped.plain "null"
  | .bool b => Escaped.plain (if b then "true" else "false")
  | v => Escaped.plain v.toText

mutual

/-- The text of a value at a level of nesting. What JSON has no kind for is written as a string. -/
def writeAt (depth : Nat) : Value → String
  | .null => "null"
  | .bool b => if b then "true" else "false"
  | .int i => toString i
  | .float x => writeFloat x
  | .text s => Escaped.plain s
  | .list items => block "[" "]" depth (writeItems (depth + 1) items)
  | .tuple items => block "[" "]" depth (writeItems (depth + 1) items)
  | .mapping entries => block "\x7b" "\x7d" depth (writeEntries (depth + 1) entries)
  | v => Escaped.plain v.toText

def writeItems (depth : Nat) : List Value → List String
  | [] => []
  | v :: rest => writeAt depth v :: writeItems depth rest

def writeEntries (depth : Nat) : List (Value × Value) → List String
  | [] => []
  | (k, v) :: rest => (writeKey k ++ ": " ++ writeAt depth v) :: writeEntries depth rest

end

def write (v : Value) : String := writeAt 0 v

end EndpointBindings.Json
