import EndpointBindings.Text.Digit

/-!
The UTF-8 form of text. `encode` writes a character in one to four octets; `decode` reads octets
back, or says which of them are at fault and why.
-/

namespace EndpointBindings.Text.Utf8

/-- Why octets are not the UTF-8 form of a text. -/
inductive Problem where
  | invalidStart
  | invalidContinuation
  | unexpectedEnd
  deriving DecidableEq, Repr

/-- A faulty sequence: its first octet, where it starts and how many octets it has. -/
structure Fault where
  problem : Problem
  octet : UInt8
  start : Nat
  length : Nat
  deriving DecidableEq, Repr

def Problem.message : Problem → String
  | .invalidStart => "invalid start byte"
  | .invalidContinuation => "invalid continuation byte"
  | .unexpectedEnd => "unexpected end of data"

def Fault.message (f : Fault) : String :=
  let place :=
    if f.length = 1 then
      "byte 0x" ++ hex 2 f.octet.toNat ++ " in position " ++ toString f.start
    else
      "bytes in position " ++ toString f.start ++ "-" ++ toString (f.start + f.length - 1)
  "'utf-8' codec can't decode " ++ place ++ ": " ++ f.problem.message

def encodeChar (c : Char) : List UInt8 :=
  let n := c.toNat
  if n < 0x80 then [n.toUInt8]
  else if n < 0x800 then [(0xc0 + n / 64).toUInt8, (0x80 + n % 64).toUInt8]
  else if n < 0x10000 then
    [(0xe0 + n / 4096).toUInt8, (0x80 + n / 64 % 64).toUInt8, (0x80 + n % 64).toUInt8]
  else
    [(0xf0 + n / 262144).toUInt8, (0x80 + n / 4096 % 64).toUInt8, (0x80 + n / 64 % 64).toUInt8,
      (0x80 + n % 64).toUInt8]

def encode (cs : List Char) : List UInt8 := cs.flatMap encodeChar

def isContinuation (b : UInt8) : Bool := 0x80 ≤ b && b < 0xc0

/-- The second octets that may follow a first octet of three: no long forms, no surrogates. -/
def secondOfThree (b0 b1 : UInt8) : Bool :=
  isContinuation b1 && (if b0 = 0xe0 then 0xa0 ≤ b1 else if b0 = 0xed then b1 < 0xa0 else true)

/-- The second octets that may follow a first octet of four: no long forms, nothing past the last
code point. -/
def secondOfFour (b0 b1 : UInt8) : Bool :=
  isContinuation b1 && (if b0 = 0xf0 then 0x90 ≤ b1 else if b0 = 0xf4 then b1 < 0x90 else true)

/-- The low six bits. -/
def payload (b : UInt8) : Nat := b.toNat % 64

/-- Reads octets, the first of which stands at `pos`. -/
def decodeAt (pos : Nat) : List UInt8 → Except Fault (List Char)
  | [] => .ok []
  | b0 :: rest0 =>
    if b0 < 0x80 then return Char.ofNat b0.toNat :: (← decodeAt (pos + 1) rest0)
    else if b0 < 0xc2 || 0xf5 ≤ b0 then .error ⟨.invalidStart, b0, pos, 1⟩
    else match rest0 with
      | [] => .error ⟨.unexpectedEnd, b0, pos, 1⟩
      | b1 :: rest1 =>
        if b0 < 0xe0 then
          if isContinuation b1 then
            return Char.ofNat (b0.toNat % 32 * 64 + payload b1) :: (← decodeAt (pos + 2) rest1)
          else .error ⟨.invalidContinuation, b0, pos, 1⟩
        else if b0 < 0xf0 then
          if secondOfThree b0 b1 then
            match rest1 with
            | [] => .error ⟨.unexpectedEnd, b0, pos, 2⟩
            | b2 :: rest2 =>
              if isContinuation b2 then
                return Char.ofNat (b0.toNat % 16 * 4096 + payload b1 * 64 + payload b2) ::
                  (← decodeAt (pos + 3) rest2)
              else .error ⟨.invalidContinuation, b0, pos, 2⟩
          else .error ⟨.invalidContinuation, b0, pos, 1⟩
        else if secondOfFour b0 b1 then
          match rest1 with
          | [] => .error ⟨.unexpectedEnd, b0, pos, 2⟩
          | b2 :: rest2 =>
            if isContinuation b2 then
              match rest2 with
              | [] => .error ⟨.unexpectedEnd, b0, pos, 3⟩
              | b3 :: rest3 =>
                if isContinuation b3 then
                  return Char.ofNat (b0.toNat % 8 * 262144 + payload b1 * 4096 + payload b2 * 64 +
                    payload b3) :: (← decodeAt (pos + 4) rest3)
                else .error ⟨.invalidContinuation, b0, pos, 3⟩
            else .error ⟨.invalidContinuation, b0, pos, 2⟩
        else .error ⟨.invalidContinuation, b0, pos, 1⟩

def decode (octets : List UInt8) : Except Fault (List Char) := decodeAt 0 octets

/-- Octets without the byte-order mark that may stand in front. -/
def dropMark : List UInt8 → List UInt8
  | 0xef :: 0xbb :: 0xbf :: rest => rest
  | octets => octets

end EndpointBindings.Text.Utf8
