import EndpointBindings.Value
import EndpointBindings.Number.Reading
import EndpointBindings.Json.Fault

/-!
JSON texts as values. Beside the standard grammar the words `NaN`, `Infinity` and `-Infinity` are
numbers. Of two members with one name the later gives the value and the earlier the place.
-/

namespace EndpointBindings.Json

open EndpointBindings.Text EndpointBindings.Number

def isSpace (c : Char) : Bool := c == ' ' || c == '\t' || c == '\n' || c == '\r'

def skipSpace (cs : List Char) : List Char := cs.dropWhile isSpace

/-- A fault at the first of the given characters. -/
def fail {α : Type} (problem : Problem) (cs : List Char) : Except Fault α :=
  .error (.malformed problem cs.length)

/-- The character that a one-letter escape stands for. -/
def shortEscape? : Char → Option Char
  | '"' => some '"'
  | '\\' => some '\\'
  | '/' => some '/'
  | 'b' => some '\x08'
  | 'f' => some '\x0c'
  | 'n' => some '\n'
  | 'r' => some '\r'
  | 't' => some '\t'
  | _ => none

def isHighSurrogate (n : Nat) : Bool := 0xd800 ≤ n && n < 0xdc00

def isLowSurrogate (n : Nat) : Bool := 0xdc00 ≤ n && n < 0xe000

/-- The character of two surrogates. -/
def joinSurrogates (high low : Nat) : Char :=
  Char.ofNat (0x10000 + (high - 0xd800) * 1024 + (low - 0xdc00))

/-- The character of a code point. A text has characters only, and a surrogate that is half of no
pair is none: the replacement character stands in its place. -/
def scalar (n : Nat) : Char := if n.isValidChar then Char.ofNat n else '\ufffd'

/-- Code points with each high surrogate before a low one joined to it. -/
def joinUnits : List Nat → List Char
  | [] => []
  | [n] => [scalar n]
  | n :: m :: rest =>
    if isHighSurrogate n && isLowSurrogate m then joinSurrogates n m :: joinUnits rest
    else scalar n :: joinUnits (m :: rest)

/-- The code points up to the closing quote of a string, and what follows it; `opening` is the text
from the opening quote on. -/
def readUnits (opening : List Char) : List Char → Except Fault (List Nat × List Char)
  | [] => fail .unterminatedString opening
  | '"' :: rest => .ok ([], rest)
  | '\\' :: 'u' :: a :: b :: c :: d :: rest =>
    match hexValue [a, b, c, d] with
    | none => .error (.malformed .invalidUnicodeEscape (rest.length + 5))
    | some n =>
      if rest.isEmpty then .error (.malformed .invalidUnicodeEscape 5)
      else do
        let (units, tail) ← readUnits opening rest
        return (n :: units, tail)
  | '\\' :: 'u' :: rest => .error (.malformed .invalidUnicodeEscape (rest.length + 1))
  | ['\\'] => fail .unterminatedString opening
  | '\\' :: e :: rest =>
    match shortEscape? e with
    | none => .error (.malformed .invalidEscape (rest.length + 2))
    | some c => do
      let (units, tail) ← readUnits opening rest
      return (c.toNat :: units, tail)
  | c :: rest =>
    if c.toNat < 0x20 then .error (.malformed .controlCharacter (rest.length + 1))
    else do
      let (units, tail) ← readUnits opening rest
      return (c.toNat :: units, tail)

/-- The rest of a string after its opening quote. -/
def readString (opening : List Char) (cs : List Char) : Except Fault (String × List Char) := do
  let (units, tail) ← readUnits opening cs
  return (String.ofList (joinUnits units), tail)

/-- The whole part of a number: a zero, or digits that start with none. -/
def readWhole : List Char → Option (List Char × List Char)
  | '0' :: rest => some (['0'], rest)
  | c :: rest => if c.isDigit then some (spanDigits (c :: rest)) else none
  | [] => none

/-- The fraction of a number, if a digit follows the point. -/
def readFraction : List Char → Option (List Char × List Char)
  | '.' :: rest =>
    match spanDigits rest with
    | ([], _) => none
    | found => some found
  | _ => none

/-- A number without its sign. -/
def readNumber (negative : Bool) (cs : List Char) : Option (Except Fault Value × List Char) := do
  let (whole, rest) ← readWhole cs
  let (fraction, afterFraction) := (readFraction rest).getD ([], rest)
  match readExponent? afterFraction with
  | some (exponent, tail) => return (.ok (.float (ofParts negative whole fraction exponent)), tail)
  | none =>
    if !fraction.isEmpty then
      return (.ok (.float (ofParts negative whole fraction 0)), afterFraction)
    else if maxDigits < whole.length then return (.error (.tooManyDigits whole.length), rest)
    else return (.ok (.int (signed negative (digitsValue whole))), rest)

/-- A value that does not nest, or nothing if none starts here. -/
def readAtom (cs : List Char) : Option (Except Fault Value × List Char) :=
  match cs with
  | 'n' :: 'u' :: 'l' :: 'l' :: rest => some (.ok .null, rest)
  | 't' :: 'r' :: 'u' :: 'e' :: rest => some (.ok (.bool true), rest)
  | 'f' :: 'a' :: 'l' :: 's' :: 'e' :: rest => some (.ok (.bool false), rest)
  | 'N' :: 'a' :: 'N' :: rest => some (.ok (.float .nan), rest)
  | 'I' :: 'n' :: 'f' :: 'i' :: 'n' :: 'i' :: 't' :: 'y' :: rest =>
    some (.ok (.float (.infinite false)), rest)
  | '-' :: 'I' :: 'n' :: 'f' :: 'i' :: 'n' :: 'i' :: 't' :: 'y' :: rest =>
    some (.ok (.float (.infinite true)), rest)
  | '-' :: rest => readNumber true rest
  | _ => readNumber false cs

/-- How deep arrays and objects may nest where few calls are open. -/
def maxDepth : Nat := 990

mutual

/-- Reads a value; `fuel` bounds the steps and `depth` counts the nestings that are left. -/
def readValue : (fuel : Nat) → (depth : Nat) → List Char → Except Fault (Value × List Char)
  | 0, _, cs => fail .expectingValue cs
  | fuel + 1, depth, cs =>
    match cs with
    | '"' :: rest => do
      let (text, tail) ← readString cs rest
      return (.text text, tail)
    | '[' :: rest =>
      match depth with
      | 0 => .error (.tooDeep .array)
      | depth + 1 =>
        match skipSpace rest with
        | ']' :: tail => .ok (.list [], tail)
        | items => do
          let (values, tail) ← readItems fuel depth items
          return (.list values, tail)
    | '\x7b' :: rest =>
      match depth with
      | 0 => .error (.tooDeep .object)
      | depth + 1 =>
        match skipSpace rest with
        | '\x7d' :: tail => .ok (.mapping [], tail)
        | members => do
          let (pairs, tail) ← readMembers fuel depth members
          return (.mapping (Value.ofPairs pairs), tail)
    | _ =>
      match readAtom cs with
      | none => fail .expectingValue cs
      | some (.error fault, _) => .error fault
      | some (.ok v, tail) => .ok (v, tail)

/-- Reads the items of an array up to its end. -/
def readItems : (fuel : Nat) → (depth : Nat) → List Char → Except Fault (List Value × List Char)
  | 0, _, cs => fail .expectingValue cs
  | fuel + 1, depth, cs => do
    let (v, tail) ← readValue fuel depth cs
    match skipSpace tail with
    | ']' :: rest => return ([v], rest)
    | ',' :: rest =>
      let (vs, last) ← readItems fuel depth (skipSpace rest)
      return (v :: vs, last)
    | rest => fail .expectingComma rest

/-- Reads the members of an object up to its end. -/
def readMembers : (fuel : Nat) → (depth : Nat) → List Char →
    Except Fault (List (Value × Value) × List Char)
  | 0, _, cs => fail .expectingName cs
  | fuel + 1, depth, cs =>
    match cs with
    | '"' :: rest => do
      let (name, tail) ← readString cs rest
      match skipSpace tail with
      | ':' :: rest =>
        let (v, tail) ← readValue fuel depth (skipSpace rest)
        match skipSpace tail with
        | '\x7d' :: rest => return ([(.text name, v)], rest)
        | ',' :: rest =>
          let (members, last) ← readMembers fuel depth (skipSpace rest)
          return ((.text name, v) :: members, last)
        | rest => fail .expectingComma rest
      | rest => fail .expectingColon rest
    | _ => fail .expectingName cs

end

/-- Enough for every text: a step that reads no character is followed by one that does. -/
def fuelFor (cs : List Char) : Nat := 2 * cs.length + 2

/-- Reads a whole text as one value, in which arrays and objects nest to a depth at most. -/
def readWithin (depth : Nat) (cs : List Char) : Except Fault Value :=
  match cs with
  | '\ufeff' :: _ => fail .byteOrderMark cs
  | _ => do
    let (v, tail) ← readValue (fuelFor cs) depth (skipSpace cs)
    match skipSpace tail with
    | [] => return v
    | rest => fail .extraData rest

def read (cs : List Char) : Except Fault Value := readWithin maxDepth cs

def readText (s : String) : Except Fault Value := read s.toList

end EndpointBindings.Json
