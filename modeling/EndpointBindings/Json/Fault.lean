/-!
What can be wrong with a JSON text, and where. A fault counts the characters from its place to the
end of the text; `locate` turns that into a line and a column.
-/

namespace EndpointBindings.Json

inductive Problem where
  | byteOrderMark
  | expectingValue
  | expectingName
  | expectingColon
  | expectingComma
  | extraData
  | unterminatedString
  | controlCharacter
  | invalidEscape
  | invalidUnicodeEscape
  deriving DecidableEq, Repr

/-- The two kinds of values that nest. -/
inductive Nesting where
  | array
  | object
  deriving DecidableEq, Repr

/-- A place is given by the number of characters from it to the end. -/
inductive Fault where
  | malformed (problem : Problem) (remaining : Nat)
  | tooManyDigits (count : Nat)
  | tooDeep (nesting : Nesting)
  deriving DecidableEq, Repr

def Problem.message : Problem → String
  | .byteOrderMark => "Unexpected UTF-8 BOM (decode using utf-8-sig)"
  | .expectingValue => "Expecting value"
  | .expectingName => "Expecting property name enclosed in double quotes"
  | .expectingColon => "Expecting ':' delimiter"
  | .expectingComma => "Expecting ',' delimiter"
  | .extraData => "Extra data"
  | .unterminatedString => "Unterminated string starting at"
  | .controlCharacter => "Invalid control character at"
  | .invalidEscape => "Invalid \\escape"
  | .invalidUnicodeEscape => "Invalid \\uXXXX escape"

/-- The line and column, from one, of what follows the given text. -/
def locate (before : List Char) : Nat × Nat :=
  before.foldl
    (fun (line, column) c => if c = '\n' then (line + 1, 1) else (line, column + 1)) (1, 1)

def Nesting.name : Nesting → String
  | array => "array"
  | object => "object"

def Fault.message (text : List Char) : Fault → String
  | malformed problem remaining =>
    let offset := text.length - remaining
    let (line, column) := locate (text.take offset)
    problem.message ++ ": line " ++ toString line ++ " column " ++ toString column ++
      " (char " ++ toString offset ++ ")"
  | tooManyDigits count =>
    "Exceeds the limit (4300 digits) for integer string conversion: value has " ++
      toString count ++ " digits; use sys.set_int_max_str_digits() to increase the limit"
  | tooDeep nesting =>
    "maximum recursion depth exceeded while decoding a JSON " ++ nesting.name ++
      " from a unicode string"

end EndpointBindings.Json
