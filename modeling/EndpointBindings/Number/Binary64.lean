/-!
Binary floating-point numbers of double precision, as exact numbers. Rounding is to the nearest,
and a tie goes to the even significand.
-/

namespace EndpointBindings.Number

/-- A finite value is `± significand * 2 ^ exponent`. -/
inductive Binary64 where
  | finite (negative : Bool) (significand : Nat) (exponent : Int)
  | infinite (negative : Bool)
  | nan
  deriving DecidableEq, Repr

namespace Binary64

/-- The exponent of the least positive number. -/
def minExponent : Int := -1074

/-- The largest exponent of a finite number. -/
def maxExponent : Int := 971

/-- The least significand of a number of full precision. -/
def fullPrecision : Nat := Nat.pow 2 52

def zero (negative : Bool) : Binary64 := finite negative 0 minExponent

/-- `num / den * 2 ^ -exponent` as a quotient of naturals. -/
def scaled (num den : Nat) (exponent : Int) : Nat × Nat :=
  if exponent < 0 then (num * Nat.pow 2 (-exponent).toNat, den)
  else (num, den * Nat.pow 2 exponent.toNat)

/-- The quotient to the nearest integer, a tie to the even one. -/
def roundQuotient (num den : Nat) : Nat :=
  let q := num / den
  let r := num % den
  if den < 2 * r || (den == 2 * r && q % 2 == 1) then q + 1 else q

/-- The exponent at which the quotient has a significand of full precision, or the least one. -/
def exponentFor (num den : Nat) : Int :=
  let guess : Int := num.log2 - den.log2 - 52
  let (n, d) := scaled num den guess
  max minExponent (if n / d < fullPrecision then guess - 1 else guess)

/-- The number nearest to `± num / den`. -/
def ofRatio (negative : Bool) (num den : Nat) : Binary64 :=
  if num = 0 then zero negative
  else
    let e := exponentFor num den
    let (n, d) := scaled num den e
    let m := roundQuotient n d
    let (m, e) := if m = 2 * fullPrecision then (fullPrecision, e + 1) else (m, e)
    if maxExponent < e then infinite negative else finite negative m e

/-- Decimal exponents past these give infinity and zero for any digits that are kept. -/
def exponentBound (digits : Nat) : Int := 400 + digits

/-- The number nearest to `± digits * 10 ^ exponent`; `length` bounds the number of digits. -/
def ofDecimal (negative : Bool) (digits length : Nat) (exponent : Int) : Binary64 :=
  if digits = 0 then zero negative
  else if exponentBound length < exponent then infinite negative
  else if exponent < -exponentBound length then zero negative
  else if exponent < 0 then ofRatio negative digits (Nat.pow 10 (-exponent).toNat)
  else ofRatio negative (digits * Nat.pow 10 exponent.toNat) 1

/-- The nearest number, unless the integer is too large for any. -/
def ofInt? (i : Int) : Option Binary64 :=
  match ofRatio (i < 0) i.natAbs 1 with
  | infinite _ => none
  | x => some x

def isFinite : Binary64 → Bool
  | finite .. => true
  | _ => false

/-- The value of a finite number as a quotient with a positive denominator. -/
def ratio (significand : Nat) (exponent : Int) : Nat × Nat :=
  if exponent < 0 then (significand, Nat.pow 2 (-exponent).toNat)
  else (significand * Nat.pow 2 exponent.toNat, 1)

/-- The integer that a number is, if it is one. -/
def toInt? : Binary64 → Option Int
  | finite negative m e =>
    let (n, d) := ratio m e
    if n % d = 0 then some (if negative then -(n / d : Nat) else (n / d : Nat)) else none
  | _ => none

/-- Equality of values: zeros of both signs are equal, and nothing is equal to a NaN. -/
def equals : Binary64 → Binary64 → Bool
  | finite s m e, finite s' m' e' => m == m' && ((m == 0) || (e == e' && s == s'))
  | infinite s, infinite s' => s == s'
  | _, _ => false

def isZero : Binary64 → Bool
  | finite _ m _ => m == 0
  | _ => false

def neg : Binary64 → Binary64
  | finite s m e => finite (!s) m e
  | infinite s => infinite (!s)
  | nan => nan

end Binary64

end EndpointBindings.Number
