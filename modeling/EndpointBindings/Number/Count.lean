import EndpointBindings.Number.Reading

/-!
Counts as people write them: whole numbers from one on, with a plus sign and leading zeros, single
underscores inside, and perhaps zeros after a point.
-/

namespace EndpointBindings.Number

open EndpointBindings.Text

/-- A number without the zeros and underscores that lead it. One character stays in front of a point
and at the end. -/
def dropZeros (last : Char) : List Char → Option (List Char)
  | [] => some [last]
  | c :: rest =>
    if c = '0' || c = '_' then dropZeros c rest
    else if '1' ≤ c && c ≤ '9' then some (c :: rest)
    else if c = '.' then some (last :: c :: rest)
    else none

def dropLeadingZeros : List Char → Option (List Char)
  | [] => none
  | c :: rest =>
    if c = '0' then dropZeros c rest
    else if '1' ≤ c && c ≤ '9' then some (c :: rest)
    else none

/-- A number without its point, if zeros and nothing else follow that. -/
def dropFraction (cs : List Char) : List Char :=
  match cs.dropWhile (· != '.') with
  | '.' :: '0' :: zeros => if zeros.all (· == '0') then cs.takeWhile (· != '.') else cs
  | _ => cs

/-- The number that a text writes, if it is no less than zero. -/
def readCount? (cs : List Char) : Option Nat := do
  let body := match dropPadding cs with
    | '+' :: rest => rest
    | cs => cs
  let digits := dropFraction (← dropLeadingZeros body)
  let values ← digitsWithUnderscores 10 false digits
  if digits.all (fun c => c.isDigit || c == '_') && values.length ≤ maxDigits then
    return ofDigits 10 values
  else none

end EndpointBindings.Number
