/-!
Dates and times of day of the proleptic Gregorian calendar, years 1 to 9999.
-/

namespace EndpointBindings

/-- Decimal digits, with zeros in front up to a width. -/
def padded (width n : Nat) : String :=
  let digits := n.repr.toList
  String.ofList (List.replicate (width - digits.length) '0' ++ digits)

structure Date where
  year : Nat
  month : Nat
  day : Nat
  deriving DecidableEq, Repr

namespace Date

def isLeap (year : Nat) : Bool := year % 4 == 0 && (year % 100 != 0 || year % 400 == 0)

def daysInMonth (year month : Nat) : Nat :=
  if month = 2 then (if isLeap year then 29 else 28)
  else if month ∈ [4, 6, 9, 11] then 30 else 31

/-- The date with the given fields, if the calendar has it. -/
def ofFields? (year month day : Nat) : Option Date :=
  if 1 ≤ year && year ≤ 9999 && 1 ≤ month && month ≤ 12 && 1 ≤ day && day ≤ daysInMonth year month
  then some ⟨year, month, day⟩ else none

def iso (d : Date) : String :=
  padded 4 d.year ++ "-" ++ padded 2 d.month ++ "-" ++ padded 2 d.day

/-- Days since the first of March of the year zero. -/
def dayNumber (d : Date) : Nat :=
  let y := if d.month ≤ 2 then d.year - 1 else d.year
  let m := if d.month ≤ 2 then d.month + 9 else d.month - 3
  365 * y + y / 4 - y / 100 + y / 400 + (153 * m + 2) / 5 + d.day

end Date

/-- A date with a time of day; `offset` is the distance from universal time in minutes. -/
structure DateTime where
  date : Date
  hour : Nat
  minute : Nat
  second : Nat
  microsecond : Nat
  offset : Option Int
  deriving DecidableEq, Repr

namespace DateTime

/-- The time with the given fields, if there is one; offsets stay within a day. -/
def ofFields? (date : Date) (hour minute second microsecond : Nat) (offset : Option Int) :
    Option DateTime :=
  if hour < 24 && minute < 60 && second < 60 && microsecond < 1000000 &&
      offset.all (fun o => -1440 < o && o < 1440)
  then some ⟨date, hour, minute, second, microsecond, offset⟩ else none

def offsetText (o : Int) : String :=
  (if o < 0 then "-" else "+") ++ padded 2 (o.natAbs / 60) ++ ":" ++ padded 2 (o.natAbs % 60)

/-- The standard form, with `separator` between the date and the time. -/
def format (separator : String) (t : DateTime) : String :=
  t.date.iso ++ separator ++ padded 2 t.hour ++ ":" ++ padded 2 t.minute ++ ":" ++
    padded 2 t.second ++ (if t.microsecond = 0 then "" else "." ++ padded 6 t.microsecond) ++
    (match t.offset with | none => "" | some o => offsetText o)

def iso (t : DateTime) : String := t.format "T"

/-- Microseconds on the time's own clock. -/
def localTicks (t : DateTime) : Int :=
  (((t.date.dayNumber * 24 + t.hour) * 60 + t.minute) * 60 + t.second) * 1000000 + t.microsecond

/-- Times with an offset are equal when they are the same instant. -/
def equals (t u : DateTime) : Bool :=
  match t.offset, u.offset with
  | none, none => t.localTicks == u.localTicks
  | some o, some p => t.localTicks - o * 60000000 == u.localTicks - p * 60000000
  | _, _ => false

end DateTime

end EndpointBindings
