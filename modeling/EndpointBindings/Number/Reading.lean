import EndpointBindings.Number.Binary64
import EndpointBindings.Text.Blank
import EndpointBindings.Text.Digit

/-!
Numbers read from text on its own: integers in a base, and decimal fractions. Blanks around a number
do not count, and single underscores may stand between digits.
-/

namespace EndpointBindings.Number

open EndpointBindings.Text

/-- The most digits that an integer in decimal may have. -/
def maxDigits : Nat := 4300

/-- Whether an integer has more digits in decimal than are read or written. -/
def isLong (i : Int) : Bool := Nat.pow 10 maxDigits ≤ i.natAbs

/-- The sign in front, and what follows it. -/
def splitSign : List Char → Bool × List Char
  | '-' :: rest => (true, rest)
  | '+' :: rest => (false, rest)
  | cs => (false, cs)

def signed (negative : Bool) (n : Nat) : Int := if negative then -(n : Int) else n

/-- Digits of a base; an underscore must stand between two digits. `after` tells whether the
character before was a digit. -/
def digitsWithUnderscores (base : Nat) (after : Bool) : List Char → Option (List Nat)
  | [] => if after then some [] else none
  | '_' :: rest => if after then digitsWithUnderscores base false rest else none
  | c :: rest => do
    let d ← digitIn? base c
    return d :: (← digitsWithUnderscores base true rest)

/-- What follows the mark of a base other than ten: `0b`, `0o` or `0x`. -/
def dropBaseMark (base : Nat) (cs : List Char) : List Char :=
  let mark := if base = 2 then 'b' else if base = 8 then 'o' else if base = 16 then 'x' else '0'
  match cs with
  | '0' :: c :: rest =>
    if base != 10 && c.toLower == mark then
      match rest with
      | '_' :: more => more
      | _ => rest
    else cs
  | _ => cs

/-- An integer in a base, with sign. -/
def readInt? (base : Nat) (cs : List Char) : Option Int := do
  let (negative, rest) := splitSign (dropPadding cs)
  let digits ← digitsWithUnderscores base false (dropBaseMark base rest)
  if base = 10 && maxDigits < digits.length then none
  else return signed negative (ofDigits base digits)

/-- Leading decimal digits, and the rest. -/
def spanDigits (cs : List Char) : List Char × List Char :=
  (cs.takeWhile Char.isDigit, cs.dropWhile Char.isDigit)

def digitsValue (cs : List Char) : Nat := ofDigits 10 (cs.map fun c => c.toNat - '0'.toNat)

/-- The exponent at the end of a decimal fraction, with what follows it, if there is one. -/
def readExponent? : List Char → Option (Int × List Char)
  | [] => none
  | c :: rest =>
    if c = 'e' || c = 'E' then
      let (negative, more) := splitSign rest
      match spanDigits more with
      | ([], _) => none
      | (ds, tail) => some (signed negative (digitsValue ds), tail)
    else none

/-- The number with the given whole digits, fraction digits and exponent. -/
def ofParts (negative : Bool) (whole fraction : List Char) (exponent : Int) : Binary64 :=
  let digits := whole ++ fraction
  Binary64.ofDecimal negative (digitsValue digits) digits.length (exponent - fraction.length)

/-- A decimal fraction: digits on at least one side of the point, and an exponent. -/
def readDecimal? (negative : Bool) (cs : List Char) : Option Binary64 :=
  let (whole, rest) := spanDigits cs
  let (fraction, rest) := match rest with
    | '.' :: more => spanDigits more
    | _ => ([], rest)
  if whole.isEmpty && fraction.isEmpty then none
  else match (readExponent? rest).getD (0, rest) with
    | (e, []) => some (ofParts negative whole fraction e)
    | _ => none

/-- Decimal digits of any script as ASCII digits. -/
def asciiDigits (cs : List Char) : List Char :=
  cs.map fun c => match digitValue? c with
    | some d => Char.ofNat ('0'.toNat + d)
    | none => c

/-- A number in words or digits, with sign and blanks around it. -/
def readFloat? (cs : List Char) : Option Binary64 :=
  let (negative, rest) := splitSign (asciiDigits (dropPadding cs))
  let word := String.ofList (rest.map Char.toLower)
  if word = "inf" || word = "infinity" then some (.infinite negative)
  else if word = "nan" then some .nan
  else readDecimal? negative rest

end EndpointBindings.Number
