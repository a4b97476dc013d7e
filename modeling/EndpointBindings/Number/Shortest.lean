import EndpointBindings.Number.Binary64

/-!
The decimal text of a floating-point number: the fewest digits that read back as the same number,
among those the nearest to it, and of two as near the one with the even digit. Exponents from 16 on
and below -4 are written out.
-/

namespace EndpointBindings.Number.Binary64

/-- The place of the first digit of a quotient below one: the least `k` with
`1 ≤ num / den * 10 ^ k`. -/
def leadingPlace : Nat → Nat → Nat → Nat
  | 0, _, _ => 0
  | fuel + 1, num, den => if den ≤ num then 0 else leadingPlace fuel (num * 10) den + 1

/-- The exponent of ten of the leading digit of a positive quotient. -/
def decimalExponent (num den : Nat) : Int :=
  if den ≤ num then (Nat.toDigits 10 (num / den)).length - 1 else -(leadingPlace 400 num den : Int)

/-- The two neighbours of a quotient on the grid of multiples of `10 ^ place`: the nearer first, or
the even one where both are as near. -/
def neighbours (num den : Nat) (place : Int) : List Nat :=
  let (n, d) := if place < 0 then (num * Nat.pow 10 (-place).toNat, den)
    else (num, den * Nat.pow 10 place.toNat)
  let q := n / d
  if 2 * (n % d) + q % 2 ≤ d then [q, q + 1] else [q + 1, q]

/-- The first count of digits, from `count` on, at which a neighbour reads back, with the digits
and the place of the last of them. -/
def shortestFrom (m : Nat) (e : Int) : Nat → Nat → Nat × Int
  | 0, _ => (m, e)
  | fuel + 1, count =>
    let (num, den) := ratio m e
    let place := decimalExponent num den - (count - 1 : Nat)
    match (neighbours num den place).find? fun q =>
        decide (ofDecimal false q (count + 1) place = finite false m e) with
    | some q => (q, place)
    | none => shortestFrom m e fuel (count + 1)

/-- Seventeen digits always read back. -/
def shortest (m : Nat) (e : Int) : Nat × Int := shortestFrom m e 17 1

/-- Digits without the zeros at their end, with the number of zeros. -/
def stripZeros (digits : List Char) : List Char :=
  match (digits.reverse.dropWhile (· == '0')).reverse with
  | [] => ['0']
  | ds => ds

def exponentText (e : Int) : List Char :=
  let n := e.natAbs.repr.toList
  'e' :: (if e < 0 then '-' else '+') :: (if n.length < 2 then '0' :: n else n)

/-- Digits `d₁d₂…` as the number `d₁.d₂… * 10 ^ exponent`. -/
def layout (digits : List Char) (exponent : Int) : List Char :=
  if exponent < -4 || 16 ≤ exponent then
    match digits with
    | d :: rest => d :: ((if rest.isEmpty then [] else '.' :: rest) ++ exponentText exponent)
    | [] => []
  else if exponent < 0 then
    '0' :: '.' :: (List.replicate ((-exponent).toNat - 1) '0' ++ digits)
  else
    let whole := exponent.toNat + 1
    let padded := digits ++ List.replicate (whole - digits.length) '0'
    let fraction := padded.drop whole
    padded.take whole ++ '.' :: (if fraction.isEmpty then ['0'] else fraction)

def text : Binary64 → String
  | nan => "nan"
  | infinite negative => if negative then "-inf" else "inf"
  | finite negative m e =>
    let body :=
      if m = 0 then ['0', '.', '0']
      else
        let (q, place) := shortest m e
        let digits := q.repr.toList
        layout (stripZeros digits) (place + (digits.length - 1 : Nat))
    String.ofList (if negative then '-' :: body else body)

end EndpointBindings.Number.Binary64
