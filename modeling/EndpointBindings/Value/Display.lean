import EndpointBindings.Value
import EndpointBindings.Defect
import EndpointBindings.Number.Reading
import EndpointBindings.Number.Shortest
import EndpointBindings.Text.Quoted

/-!
How a value is shown in a message: texts in quotes, lists in brackets, mappings in braces. Where a
collection comes again inside itself there are dots between its brackets. `shown` refuses integers
that are too long to be written.
-/

namespace EndpointBindings

open EndpointBindings.Text

def Date.arguments (d : Date) : List Nat := [d.year, d.month, d.day]

/-- The trailing fields of a time that are zero are not shown. -/
def DateTime.arguments (t : DateTime) : List Nat :=
  t.date.arguments ++ [t.hour, t.minute] ++
    (if t.microsecond ≠ 0 then [t.second, t.microsecond]
     else if t.second ≠ 0 then [t.second] else [])

/-- An offset as days, which may be negative, and seconds within the day. -/
def showOffset (minutes : Int) : String :=
  if minutes = 0 then "datetime.timezone.utc"
  else
    let days := minutes.fdiv 1440
    let seconds := minutes.fmod 1440 * 60
    let fields := (if days = 0 then [] else ["days=" ++ toString days]) ++
      (if seconds = 0 then [] else ["seconds=" ++ toString seconds])
    "datetime.timezone(datetime.timedelta(" ++ ", ".intercalate fields ++ "))"

def Date.show (d : Date) : String :=
  "datetime.date(" ++ ", ".intercalate (d.arguments.map toString) ++ ")"

def DateTime.show (t : DateTime) : String :=
  "datetime.datetime(" ++
    ", ".intercalate (t.arguments.map toString ++
      (match t.offset with | none => [] | some o => ["tzinfo=" ++ showOffset o])) ++ ")"

namespace Value

/-- A collection of which only the brackets are shown. -/
def elided : Value → String
  | list _ => "[...]"
  | tuple _ => "(...)"
  | _ => "\x7b...\x7d"

mutual

/-- A value as it is written inside loops, which are given by their labels with what stands for them
there. -/
def displayInside : (around : List (Nat × String)) → Value → String
  | _, null => "None"
  | _, bool b => if b then "True" else "False"
  | _, int i => toString i
  | _, float x => x.text
  | _, text s => Quoted.quote s
  | around, list items => "[" ++ ", ".intercalate (displayAll around items) ++ "]"
  | around, mapping entries =>
    "\x7b" ++ ", ".intercalate (displayEntries around entries) ++ "\x7d"
  | around, tuple items =>
    match displayAll around items with
    | [one] => "(" ++ one ++ ",)"
    | shown => "(" ++ ", ".intercalate shown ++ ")"
  | around, set items =>
    if items.isEmpty then "set()"
    else "\x7b" ++ ", ".intercalate (displayAll around items) ++ "\x7d"
  | _, bytes octets => Quoted.quoteOctets octets
  | _, date d => d.show
  | _, instant t => t.show
  | around, loop label body =>
    match around.lookup label with
    | some dots => dots
    | none => displayInside ((label, body.elided) :: around) body
  | around, again label => (around.lookup label).getD "..."

def displayAll : (around : List (Nat × String)) → List Value → List String
  | _, [] => []
  | around, v :: rest => displayInside around v :: displayAll around rest

def displayEntries : (around : List (Nat × String)) → List (Value × Value) → List String
  | _, [] => []
  | around, (k, v) :: rest =>
    (displayInside around k ++ ": " ++ displayInside around v) :: displayEntries around rest

end

/-- A value as it is written in a message. -/
def display (v : Value) : String := displayInside [] v

/-- A value as a text of its own: a text stands for itself, a date is in standard form. -/
def toText : Value → String
  | text s => s
  | date d => d.iso
  | instant t => t.format " "
  | v => v.display

mutual

/-- Whether an integer in a value has more digits than are written. -/
def hasLongInteger : Value → Bool
  | int i => Number.isLong i
  | list items => anyLongInteger items
  | tuple items => anyLongInteger items
  | set items => anyLongInteger items
  | mapping entries => entriesLongInteger entries
  | loop _ body => hasLongInteger body
  | _ => false

def anyLongInteger : List Value → Bool
  | [] => false
  | v :: rest => hasLongInteger v || anyLongInteger rest

def entriesLongInteger : List (Value × Value) → Bool
  | [] => false
  | (k, v) :: rest => hasLongInteger k || hasLongInteger v || entriesLongInteger rest

end

/-- A value as it is written in a message, if it can be. -/
def shown (v : Value) : Except Defect String :=
  if v.hasLongInteger then .error .tooManyDigits else .ok v.display

/-- A value as a text of its own, if it has one. -/
def shownText (v : Value) : Except Defect String :=
  if v.hasLongInteger then .error .tooManyDigits else .ok v.toText

end Value

end EndpointBindings
