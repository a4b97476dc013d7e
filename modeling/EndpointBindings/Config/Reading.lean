import EndpointBindings.Number.Count
import EndpointBindings.Text.Case
import EndpointBindings.Value

/-!
Values of settings. A count may be given as a number or as text that writes a number, a switch also
as a word. What cannot be read is told by its place inside the value.
-/

namespace EndpointBindings

open EndpointBindings.Text EndpointBindings.Number

/-- The keys and positions that lead to a part of a value; none of them for the whole. -/
abbrev Place := List String

def Place.text (p : Place) : String := ".".intercalate p

/-- A value as it is read, or all the places at which it cannot be. -/
abbrev Checked := Except (List Place)

namespace Checked

/-- Refuses a value as a whole. -/
def refuse {α : Type} : Checked α := .error [[]]

def places {α : Type} : Checked α → List Place
  | .ok _ => []
  | .error ps => ps

/-- A part of a larger value, which stands there under a key. -/
def under {α : Type} (key : String) (r : Checked α) : Checked α :=
  r.mapError fun ps => ps.map (key :: ·)

@[simp] theorem under_ok {α : Type} (key : String) (a : α) : under key (.ok a) = .ok a := rfl

end Checked

namespace Setting

/-- A whole number within the bounds of 64 bits with a sign, which themselves do not count. -/
def wholeNumber? (x : Binary64) : Option Int := x.toInt?.filter fun i => i.natAbs < Nat.pow 2 63

/-- At least one of something. -/
def atLeastOne (i : Int) : Checked Nat := if 1 ≤ i then .ok i.toNat else .refuse

def readCount : Value → Checked Nat
  | .bool b => atLeastOne (if b then 1 else 0)
  | .int i => atLeastOne i
  | .float x =>
    match wholeNumber? x with
    | some i => atLeastOne i
    | none => .refuse
  | .text s =>
    match Number.readCount? s.toList with
    | some n => atLeastOne n
    | none => .refuse
  | _ => .refuse

def trueWords : List String := ["1", "on", "t", "true", "y", "yes"]

def falseWords : List String := ["0", "off", "f", "false", "n", "no"]

def readSwitch : Value → Checked Bool
  | .bool b => .ok b
  | .int i => if i = 1 then .ok true else if i = 0 then .ok false else .refuse
  | .float x =>
    match x.toInt? with
    | some i => if i = 1 then .ok true else if i = 0 then .ok false else .refuse
    | none => .refuse
  | .text s =>
    let word := lowerAscii s
    if word ∈ trueWords then .ok true else if word ∈ falseWords then .ok false else .refuse
  | _ => .refuse

/-- The name of a directory, or null for none. -/
def readDirectory : Value → Checked (Option String)
  | .null => .ok none
  | .text s => .ok (some s)
  | _ => .refuse

/-- The texts of a list from a position on. -/
def readTexts (position : Nat) : List Value → Checked (List String)
  | [] => .ok []
  | .text s :: rest => (readTexts (position + 1) rest).map (s :: ·)
  | _ :: rest => .error ([toString position] :: (readTexts (position + 1) rest).places)

def readPatterns : Value → Checked (List String)
  | .list items => readTexts 0 items
  | _ => .refuse

end Setting

end EndpointBindings
