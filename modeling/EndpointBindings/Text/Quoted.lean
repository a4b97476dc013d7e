import EndpointBindings.Text.Printable
import EndpointBindings.Text.Digit

/-!
Text in quotes, as messages show it. The quote is an apostrophe, or a double quote when that saves
escaping apostrophes; what is not printable is written as an escape.
-/

namespace EndpointBindings.Text.Quoted

/-- The escape of a code point, as short as its size allows. -/
def escape (n : Nat) : List Char :=
  if n < 0x100 then '\\' :: 'x' :: hexDigits 2 n
  else if n < 0x10000 then '\\' :: 'u' :: hexDigits 4 n
  else '\\' :: 'U' :: hexDigits 8 n

def showChar (quote c : Char) : List Char :=
  if c = quote || c = '\\' then ['\\', c]
  else if c = '\t' then ['\\', 't']
  else if c = '\n' then ['\\', 'n']
  else if c = '\r' then ['\\', 'r']
  else if isPrintable c then [c]
  else escape c.toNat

def quoteFor (cs : List Char) : Char := if '\'' ∈ cs && '"' ∉ cs then '"' else '\''

def quote (s : String) : String :=
  let q := quoteFor s.toList
  String.ofList (q :: (s.toList.flatMap (showChar q) ++ [q]))

def showOctet (quote : Char) (b : UInt8) : List Char :=
  if b < 0x80 then
    let c := Char.ofNat b.toNat
    if c = quote || c = '\\' || c = '\t' || c = '\n' || c = '\r' || isPrintable c then
      showChar quote c
    else escape b.toNat
  else escape b.toNat

/-- Octets, shown as the ASCII characters they stand for where they do. -/
def quoteOctets (octets : List UInt8) : String :=
  let q := quoteFor (octets.map fun b => Char.ofNat b.toNat)
  String.ofList ('b' :: q :: (octets.flatMap (showOctet q) ++ [q]))

end EndpointBindings.Text.Quoted
