import EndpointBindings.Number.Binary64

/-!
Sums and products of floating-point numbers: the exact result, rounded once.
-/

namespace EndpointBindings.Number.Binary64

/-- A finite value as a quotient with sign. -/
def signedRatio (negative : Bool) (m : Nat) (e : Int) : Int × Nat :=
  let (n, d) := ratio m e
  (if negative then -(n : Int) else n, d)

def ofSignedRatio (n : Int) (d : Nat) : Binary64 := ofRatio (n < 0) n.natAbs d

def mul : Binary64 → Binary64 → Binary64
  | finite s m e, finite t n f =>
    let (a, b) := ratio m e
    let (c, d) := ratio n f
    ofRatio (s != t) (a * c) (b * d)
  | nan, _ | _, nan => nan
  | infinite s, finite t n _ => if n = 0 then nan else infinite (s != t)
  | finite s m _, infinite t => if m = 0 then nan else infinite (s != t)
  | infinite s, infinite t => infinite (s != t)

/-- A sum of zero is negative only if both numbers are. -/
def add : Binary64 → Binary64 → Binary64
  | finite s m e, finite t n f =>
    let (a, b) := signedRatio s m e
    let (c, d) := signedRatio t n f
    let sum := a * d + c * b
    if sum = 0 then zero (s && t) else ofSignedRatio sum (b * d)
  | nan, _ | _, nan => nan
  | infinite s, infinite t => if s = t then infinite s else nan
  | infinite s, _ => infinite s
  | _, infinite t => infinite t

end EndpointBindings.Number.Binary64
