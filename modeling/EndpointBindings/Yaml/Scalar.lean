import EndpointBindings.Value
import EndpointBindings.Number.Arithmetic
import EndpointBindings.Number.Reading
import EndpointBindings.Text.Base64
import EndpointBindings.Yaml.Cursor
import EndpointBindings.Yaml.Tag

/-!
The values of scalars. A tag that was given need not go with the text, which is then a fault.
-/

namespace EndpointBindings.Yaml

open EndpointBindings.Number EndpointBindings.Text

def orMalformed {α : Type} (o : Option α) : Except Fault α :=
  match o with
  | some x => .ok x
  | none => .error .malformed

/-- Text between colons. -/
def splitColons (cs : List Char) : List (List Char) := cs.splitOn ':'

/-- The number whose digits in base sixty are given, most significant first. -/
def sexagesimal (digits : List Int) : Int := digits.foldl (fun n d => n * 60 + d) 0

/-- The sum of digits times powers of sixty, least first. -/
def sexagesimalFloat : Nat → List Binary64 → Binary64 → Except Fault Binary64
  | _, [], sum => .ok sum
  | power, d :: rest, sum =>
    match Binary64.ofInt? (Nat.pow 60 power) with
    | some base => sexagesimalFloat (power + 1) rest (sum.add (d.mul base))
    | none => .error (.defect .integerBeyondFloat)

/-- A number without underscores, with its sign apart; there must be something after the sign for
`first` to look at. -/
def splitNumber (text : List Char) : Except Fault (Bool × List Char) :=
  match text.filter (· != '_') with
  | [] => .error (.defect .emptyNumber)
  | '-' :: rest => .ok (true, rest)
  | '+' :: rest => .ok (false, rest)
  | cs => .ok (false, cs)

def boolValue (text : String) : Except Fault Value :=
  let word := text.toLower
  if ["yes", "true", "on"].contains word then .ok (.bool true)
  else if ["no", "false", "off"].contains word then .ok (.bool false)
  else .error (.defect .unknownFlagWord)

def intValue (text : List Char) : Except Fault Value := do
  let (negative, digits) ← splitNumber text
  let magnitude ← match digits with
    | [] => .error (.defect .emptyNumber)
    | '0' :: 'b' :: rest => orMalformed (readInt? 2 rest)
    | '0' :: 'x' :: rest => orMalformed (readInt? 16 rest)
    | '0' :: _ => orMalformed (readInt? 8 digits)
    | _ =>
      if digits.contains ':' then do
        let parts ← (splitColons digits).mapM fun part => orMalformed (readInt? 10 part)
        pure (sexagesimal parts)
      else orMalformed (readInt? 10 digits)
  return .int (if negative then -magnitude else magnitude)

/-- Whether a text is the word for what is not a number. -/
def isNanWord (text : List Char) : Bool :=
  match splitNumber (text.map Char.toLower) with
  | .ok (_, word) => String.ofList word == ".nan"
  | .error _ => false

def floatValue (text : List Char) : Except Fault Value := do
  let (negative, digits) ← splitNumber (text.map Char.toLower)
  let withSign (x : Binary64) : Value := .float (if negative then x.neg else x)
  let word := String.ofList digits
  if word == ".inf" then return withSign (.infinite false)
  else if isNanWord text then return .float .nan
  else if digits.contains ':' then
    let parts ← (splitColons digits).mapM fun part => orMalformed (readFloat? part)
    return withSign (← sexagesimalFloat 0 parts.reverse (.zero false))
  else return withSign (← orMalformed (readFloat? digits))

def binaryValue (text : List Char) : Except Fault Value :=
  if text.all (·.toNat < 0x80) then do return .bytes (← orMalformed (Base64.decode text))
  else .error .malformed

/-- The first six digits of a fraction of a second. -/
def microseconds (fraction : List Char) : Nat :=
  digitsValue ((fraction ++ List.replicate 6 '0').take 6)

def timestampValue (text : List Char) : Except Fault Value :=
  match Tag.readDate (Tag.dropLastLineFeed text) with
  | none => .error (.defect .notTimestamp)
  | some d => do
    let date ← orMalformed (Date.ofFields? d.year d.month d.day)
    match d.time with
    | none => return .date date
    | some t =>
      let instant ← orMalformed
        (DateTime.ofFields? date t.hour t.minute t.second (microseconds t.fraction) t.offset)
      return .instant instant

/-- The value of a scalar under a tag; collections have tags of their own. -/
def scalarValue (tag : Tag) (text : String) : Except Fault Value :=
  match tag with
  | .null => .ok .null
  | .bool => boolValue text
  | .int => intValue text.toList
  | .float => floatValue text.toList
  | .binary => binaryValue text.toList
  | .timestamp => timestampValue text.toList
  | .str => .ok (.text text)
  | .omap | .pairs | .set | .seq | .map | .merge | .value | .unknown => .error .malformed

end EndpointBindings.Yaml
