/-!
The kinds of nodes, by their tags. The kind of a scalar without quotes or tag is read off its text.
-/

namespace EndpointBindings.Yaml

inductive Tag where
  | null
  | bool
  | int
  | float
  | binary
  | timestamp
  | omap
  | pairs
  | set
  | str
  | seq
  | map
  | merge
  | value
  | unknown
  deriving DecidableEq, Repr

namespace Tag

/-- What the full names of the known tags begin with. -/
def coreLead : String := "tag:yaml.org,2002:"

def named : List (String × Tag) :=
  [("null", null), ("bool", bool), ("int", int), ("float", float), ("binary", binary),
   ("timestamp", timestamp), ("omap", omap), ("pairs", pairs), ("set", set), ("str", str),
   ("seq", seq), ("map", map), ("merge", merge), ("value", value)]

/-- The tag of a full name. -/
def ofName (name : String) : Tag :=
  ((named.find? fun t => coreLead ++ t.1 == name).map (·.2)).getD unknown

def isBoolWord (s : String) : Bool :=
  ["yes", "Yes", "YES", "no", "No", "NO", "true", "True", "TRUE", "false", "False", "FALSE", "on",
   "On", "ON", "off", "Off", "OFF"].contains s

def isNullWord (s : String) : Bool := ["", "~", "null", "Null", "NULL"].contains s

def dropSign : List Char → List Char
  | '+' :: rest | '-' :: rest => rest
  | cs => cs

def isDigitOrMark (c : Char) : Bool := c.isDigit || c == '_'

/-- Groups of one or two digits below sixty, each after a colon, and what follows them. -/
def sixtieths : List Char → Nat × List Char
  | ':' :: a :: b :: rest =>
    if a.isDigit && b.isDigit && a.toNat < '6'.toNat then
      let (n, tail) := sixtieths rest
      (n + 1, tail)
    else if a.isDigit then
      let (n, tail) := sixtieths (b :: rest)
      (n + 1, tail)
    else (0, ':' :: a :: b :: rest)
  | [':', a] => if a.isDigit then (1, []) else (0, [':', a])
  | cs => (0, cs)

/-- A whole number in base two, eight, ten, sixteen or sixty. -/
def isInt (cs : List Char) : Bool :=
  match dropSign cs with
  | '0' :: 'b' :: rest => !rest.isEmpty && rest.all fun c => c == '0' || c == '1' || c == '_'
  | '0' :: 'x' :: rest =>
    !rest.isEmpty && rest.all fun c =>
      isDigitOrMark c || ('a' ≤ c && c ≤ 'f') || ('A' ≤ c && c ≤ 'F')
  | ['0'] => true
  | '0' :: rest => rest.all fun c => ('0' ≤ c && c ≤ '7') || c == '_'
  | c :: rest =>
    c.isDigit &&
      (match sixtieths (rest.dropWhile isDigitOrMark) with
      | (_, tail) => tail.isEmpty)
  | [] => false

/-- An exponent, which must have a sign; there need not be one. -/
def isExponentOrEnd : List Char → Bool
  | [] => true
  | e :: sign :: digits =>
    (e == 'e' || e == 'E') && (sign == '+' || sign == '-') && !digits.isEmpty &&
      digits.all Char.isDigit
  | _ => false

/-- A fraction after its point, with an exponent. -/
def isFraction (cs : List Char) : Bool := isExponentOrEnd (cs.dropWhile isDigitOrMark)

/-- A number with a point, in base ten or sixty, or a word for what is no finite number. -/
def isFloat (cs : List Char) : Bool :=
  let unsigned := dropSign cs
  if [".inf", ".Inf", ".INF"].contains (String.ofList unsigned) then true
  else if [".nan", ".NaN", ".NAN"].contains (String.ofList cs) then true
  else
    match cs with
    | '.' :: d :: rest => d.isDigit && isFraction rest
    | _ =>
      match unsigned with
      | d :: rest =>
        d.isDigit &&
          (match rest.dropWhile isDigitOrMark with
          | '.' :: fraction => isFraction fraction
          | more =>
            match sixtieths more with
            | (0, _) => false
            | (_, '.' :: fraction) => fraction.all isDigitOrMark
            | _ => false)
      | [] => false

/-- Up to two digits, of which there must be one. -/
def oneOrTwoDigits : List Char → Option (Nat × List Char)
  | a :: b :: rest =>
    if a.isDigit && b.isDigit then
      some ((a.toNat - '0'.toNat) * 10 + (b.toNat - '0'.toNat), rest)
    else if a.isDigit then some (a.toNat - '0'.toNat, b :: rest)
    else none
  | [a] => if a.isDigit then some (a.toNat - '0'.toNat, []) else none
  | [] => none

def twoDigits : List Char → Option (Nat × List Char)
  | a :: b :: rest =>
    if a.isDigit && b.isDigit then
      some ((a.toNat - '0'.toNat) * 10 + (b.toNat - '0'.toNat), rest)
    else none
  | _ => none

def fourDigits (cs : List Char) : Option (Nat × List Char) := do
  let (high, rest) ← twoDigits cs
  let (low, rest) ← twoDigits rest
  return (high * 100 + low, rest)

def sign (c : Char) (cs : List Char) : Option (List Char) :=
  match cs with
  | d :: rest => if c == d then some rest else none
  | [] => none

/-- A written time of day: hour, minute, second, digits of a fraction and the zone, as a sign with
hours and minutes, or nothing at all. -/
structure WrittenTime where
  hour : Nat
  minute : Nat
  second : Nat
  fraction : List Char
  /-- Minutes from universal time. -/
  offset : Option Int

/-- A written date, perhaps with a time. -/
structure WrittenDate where
  year : Nat
  month : Nat
  day : Nat
  time : Option WrittenTime

/-- A zone at the end of a time. -/
def readZone (cs : List Char) : Option (Option Int) :=
  match cs.dropWhile fun c => c == ' ' || c == '\t' with
  | [] => if cs.isEmpty then some none else none
  | ['Z'] => some (some 0)
  | s :: rest =>
    if s == '+' || s == '-' then do
      let (hours, rest) ← oneOrTwoDigits rest
      let minutes ← match rest with
        | [] => some 0
        | _ => do
          let (minutes, rest) ← twoDigits (← sign ':' rest)
          if rest.isEmpty then some minutes else none
      let offset : Int := hours * 60 + minutes
      return some (if s == '-' then -offset else offset)
    else none

def readTime (cs : List Char) : Option WrittenTime := do
  let (hour, rest) ← oneOrTwoDigits cs
  let (minute, rest) ← twoDigits (← sign ':' rest)
  let (second, rest) ← twoDigits (← sign ':' rest)
  let (fraction, rest) := match rest with
    | '.' :: more => (more.takeWhile Char.isDigit, more.dropWhile Char.isDigit)
    | _ => ([], rest)
  return ⟨hour, minute, second, fraction, ← readZone rest⟩

/-- What follows the gap between a date and a time: a letter, or blanks. -/
def afterDateGap : List Char → Option (List Char)
  | 'T' :: rest | 't' :: rest => some rest
  | c :: rest =>
    if c == ' ' || c == '\t' then some (rest.dropWhile fun c => c == ' ' || c == '\t') else none
  | [] => none

/-- A date in numbers, perhaps with a time. -/
def readDate (cs : List Char) : Option WrittenDate := do
  let (year, rest) ← fourDigits cs
  let (month, rest) ← oneOrTwoDigits (← sign '-' rest)
  let (day, rest) ← oneOrTwoDigits (← sign '-' rest)
  match rest with
  | [] => return ⟨year, month, day, none⟩
  | _ => return ⟨year, month, day, some (← readTime (← afterDateGap rest))⟩

/-- A date that is recognised without a tag: one without a time has two digits in each field. -/
def isTimestamp (cs : List Char) : Bool :=
  match readDate cs with
  | some d => d.time.isSome || cs.length == 10
  | none => false

/-- A text without one line feed at its end. -/
def dropLastLineFeed (cs : List Char) : List Char :=
  if cs.getLast? == some '\n' then cs.dropLast else cs

/-- The kind of a scalar that has neither quotes nor a tag. -/
def ofPlain (text : String) : Tag :=
  if text.isEmpty then null
  else
    let cs := dropLastLineFeed text.toList
    let s := String.ofList cs
    if cs.isEmpty then str
    else if isBoolWord s then bool
    else if isFloat cs then float
    else if isInt cs then int
    else if s == "<<" then merge
    else if isNullWord s then null
    else if isTimestamp cs then timestamp
    else if s == "=" then value
    else if s == "!" || s == "&" || s == "*" then unknown
    else str

end Tag

end EndpointBindings.Yaml
