import EndpointBindings.Calendar
import EndpointBindings.Number.Binary64

/-!
What a document decodes to. JSON gives the first seven kinds with texts for keys; YAML gives all of
them. A mapping keeps the order of its entries and has no two equal keys.

A collection of YAML can be an item of itself. It is written as a `loop` with a label, and inside it
`again` with the label stands for the whole; `unfold` puts the whole there, so that what is in an
unfolded collection is a value of its own. Every collection on the way back is a loop: one that is
not leads nowhere back.
-/

namespace EndpointBindings

open EndpointBindings.Number

inductive Value where
  | null
  | bool (b : Bool)
  | int (i : Int)
  | float (x : Binary64)
  | text (s : String)
  | list (items : List Value)
  | mapping (entries : List (Value × Value))
  | tuple (items : List Value)
  | set (items : List Value)
  | bytes (octets : List UInt8)
  | date (d : Date)
  | instant (t : DateTime)
  /-- A collection that leads back to itself. -/
  | loop (label : Nat) (body : Value)
  /-- The loop of a label, inside it. -/
  | again (label : Nat)
  deriving Inhabited

namespace Value

/-- The integer that an integer or a flag stands for when it is compared. -/
def integer? : Value → Option Int
  | bool b => some (if b then 1 else 0)
  | int i => some i
  | _ => none

/-- Whether two values are one key. Numbers are compared by value, flags among them, so that what is
not a number is no key twice. -/
def sameKey (a b : Value) : Bool :=
  match a, b with
  | null, null => true
  | text s, text t => s == t
  | bytes o, bytes p => o == p
  | date d, date e => d == e
  | instant t, instant u => t.equals u
  | float x, float y => x.equals y
  | float x, b => match b.integer? with
    | some j => x.toInt? == some j
    | none => false
  | a, float y => match a.integer? with
    | some i => y.toInt? == some i
    | none => false
  | a, b => match a.integer?, b.integer? with
    | some i, some j => i == j
    | _, _ => false

/-- Entries with one more: a known key keeps its place and takes the new value. -/
def insertEntry (key value : Value) : List (Value × Value) → List (Value × Value)
  | [] => [(key, value)]
  | (k, v) :: rest =>
    if k.sameKey key then (k, value) :: rest else (k, v) :: insertEntry key value rest

/-- The entries of a mapping from pairs in which keys may repeat. -/
def ofPairs (pairs : List (Value × Value)) : List (Value × Value) :=
  pairs.foldl (fun entries p => insertEntry p.1 p.2 entries) []

/-- The value of a field of a mapping. -/
def field? (name : String) (entries : List (Value × Value)) : Option Value :=
  (entries.find? fun e => e.1.sameKey (text name)).map (·.2)

/-- The value of a field, null when it is absent. -/
def field (name : String) (entries : List (Value × Value)) : Value :=
  (field? name entries).getD null

def isNull : Value → Bool
  | null => true
  | _ => false

/-- Empty values, zeros and null count as nothing said. -/
def isBlank : Value → Bool
  | null => true
  | bool b => !b
  | int i => i == 0
  | float x => x.isZero
  | text s => s.isEmpty
  | list items | tuple items | set items => items.isEmpty
  | mapping entries => entries.isEmpty
  | bytes octets => octets.isEmpty
  | date _ | instant _ | again _ => false
  | loop _ body => body.isBlank

/-- The first value unless it is blank. -/
def orElse (a b : Value) : Value := if a.isBlank then b else a

/-- The kind of a value by the name that JSON has for it, or else the name of its type. -/
def kindName : Value → String
  | null => "null"
  | bool _ => "boolean"
  | int _ => "integer"
  | float _ => "float"
  | text _ => "string"
  | list _ | tuple _ => "list"
  | mapping _ => "object"
  | set _ => "set"
  | bytes _ => "bytes"
  | date _ => "date"
  | instant _ => "datetime"
  | loop _ body => body.kindName
  | again _ => "object"

/-- The short name of a value's type. -/
def typeName : Value → String
  | null => "NoneType"
  | bool _ => "bool"
  | int _ => "int"
  | float _ => "float"
  | text _ => "str"
  | list _ => "list"
  | mapping _ => "dict"
  | tuple _ => "tuple"
  | set _ => "set"
  | bytes _ => "bytes"
  | date _ => "date"
  | instant _ => "datetime"
  | loop _ body => body.typeName
  | again _ => "dict"

mutual

/-- A value with a whole in the place of its label. -/
def fill (label : Nat) (whole : Value) : Value → Value
  | again l => if l = label then whole else again l
  | loop l body => if l = label then loop l body else loop l (fillItems label whole body)
  | v => v

/-- A collection with a whole in the place of its label in each item. -/
def fillItems (label : Nat) (whole : Value) : Value → Value
  | list items => list (fillAll label whole items)
  | tuple items => tuple (fillAll label whole items)
  | mapping entries => mapping (fillEntries label whole entries)
  | v => v

def fillAll (label : Nat) (whole : Value) : List Value → List Value
  | [] => []
  | v :: rest => fill label whole v :: fillAll label whole rest

def fillEntries (label : Nat) (whole : Value) : List (Value × Value) → List (Value × Value)
  | [] => []
  | (k, v) :: rest => (k, fill label whole v) :: fillEntries label whole rest

end

/-- A loop as the collection that it is; its items are whole values. -/
def unfold : Value → Value
  | loop label body => fillItems label (loop label body) body
  | v => v

theorem field?_insertEntry (name : String) (value : Value) (entries : List (Value × Value)) :
    field? name (insertEntry (text name) value entries) = some value := by
  induction entries with
  | nil => simp [insertEntry, field?, sameKey]
  | cons e rest ih =>
    obtain ⟨k, v⟩ := e
    by_cases h : k.sameKey (text name)
    · simp [insertEntry, h, field?]
    · simpa [insertEntry, h, field?, List.find?_cons] using ih

end Value

end EndpointBindings
