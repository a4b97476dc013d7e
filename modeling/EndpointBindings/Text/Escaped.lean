import EndpointBindings.Text.Digit

/-!
Text between double quotes with the backslash escapes of JSON.
`ascii` leaves ASCII only; `plain` escapes no more than it has to.
-/

namespace EndpointBindings.Text.Escaped

/-- The escape of a sixteen-bit unit. -/
def escapeUnit (n : Nat) : List Char := '\\' :: 'u' :: hexDigits 4 n

/-- The escape of a character: of both its surrogates when it lies past the first plane. -/
def escapeChar (c : Char) : List Char :=
  let n := c.toNat
  if n < 0x10000 then escapeUnit n
  else escapeUnit (0xd800 + (n - 0x10000) / 1024) ++ escapeUnit (0xdc00 + (n - 0x10000) % 1024)

/-- The characters with a two-character escape of their own. -/
def shortEscape? (c : Char) : Option Char :=
  if c = '"' then some '"'
  else if c = '\\' then some '\\'
  else if c = '\n' then some 'n'
  else if c = '\r' then some 'r'
  else if c = '\t' then some 't'
  else if c = '\x0c' then some 'f'
  else if c = '\x08' then some 'b'
  else none

/-- The written form of a character, where `shown` says which stand for themselves. -/
def writeChar (shown : Char → Bool) (c : Char) : List Char :=
  match shortEscape? c with
  | some e => ['\\', e]
  | none => if shown c then [c] else escapeChar c

def isAsciiShown (c : Char) : Bool := 0x20 ≤ c.toNat && c.toNat < 0x7f

def isPlainShown (c : Char) : Bool := 0x20 ≤ c.toNat

def write (shown : Char → Bool) (s : String) : String :=
  String.ofList ('"' :: (s.toList.flatMap (writeChar shown) ++ ['"']))

/-- Only printable ASCII characters stand for themselves. -/
def ascii (s : String) : String := write isAsciiShown s

/-- All but quotes, backslashes and control characters stand for themselves. -/
def plain (s : String) : String := write isPlainShown s

end EndpointBindings.Text.Escaped
