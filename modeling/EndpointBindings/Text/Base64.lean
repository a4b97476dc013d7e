/-!
Octets written in sixty-four characters, read leniently: characters outside the alphabet are passed
over, and padding ends the text where a group is complete.
-/

namespace EndpointBindings.Text.Base64

def sextet? (c : Char) : Option Nat :=
  if c.isUpper then some (c.toNat - 'A'.toNat)
  else if c.isLower then some (c.toNat - 'a'.toNat + 26)
  else if c.isDigit then some (c.toNat - '0'.toNat + 52)
  else if c == '+' then some 62
  else if c == '/' then some 63
  else none

/-- Reads on with `filled` characters of a group read, of which the last left the bits `left`, and
`pads` padding signs in a row. -/
def decodeFrom (filled left pads : Nat) : List Char → Option (List UInt8)
  | [] => if filled = 0 then some [] else none
  | c :: rest =>
    if c == '=' then
      if 2 ≤ filled then
        if 4 ≤ filled + (pads + 1) then some [] else decodeFrom filled left (pads + 1) rest
      else decodeFrom filled left pads rest
    else
      match sextet? c with
      | none => decodeFrom filled left pads rest
      | some n =>
        match filled with
        | 0 => decodeFrom 1 n 0 rest
        | 1 => (decodeFrom 2 (n % 16) 0 rest).map ((left * 4 + n / 16).toUInt8 :: ·)
        | 2 => (decodeFrom 3 (n % 4) 0 rest).map ((left * 16 + n / 4).toUInt8 :: ·)
        | _ => (decodeFrom 0 0 0 rest).map ((left * 64 + n).toUInt8 :: ·)

/-- The octets of a text, unless its last group is not complete. -/
def decode (cs : List Char) : Option (List UInt8) := decodeFrom 0 0 0 cs

end EndpointBindings.Text.Base64
