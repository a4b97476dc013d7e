import EndpointBindings.Value.Display
import EndpointBindings.ValueType

/-!
Default values of parameters. A default carries the tag under which it is read back; `fit` chooses
the tag from the declared type, or says why the value does not fit.
-/

namespace EndpointBindings

open EndpointBindings.Number EndpointBindings.Text

/-- A type was expected and something else was found. -/
structure TypeMismatch where
  expected : String
  actual : String
  detail : Option String
  deriving DecidableEq, Repr

inductive Default where
  | text (s : String)
  | flag (b : Bool)
  | integer (i : Int)
  | float (x : Binary64)
  | list (items : List String)
  deriving DecidableEq, Repr

/-- Why a value is no default: it does not fit the type, or it is an integer past every float, or it
does not fit and is an integer too long to be told. -/
inductive Misfit where
  | mismatch (m : TypeMismatch)
  | beyondFloat
  | tooManyDigits
  deriving DecidableEq, Repr

namespace Default

/-- The name of a default's tag. -/
def tag : Default → String
  | text _ => "str"
  | flag _ => "bool"
  | integer _ => "int"
  | float _ => "float"
  | list _ => "list"

/-- The texts of a list, if it holds nothing else. -/
def texts? : List Value → Option (List String)
  | [] => some []
  | .text s :: rest => (texts? rest).map (s :: ·)
  | _ :: _ => none

def mismatch (expected actual : String) (detail : Option String) : Except Misfit Default :=
  .error (.mismatch ⟨expected, actual, detail⟩)

/-- One text stands for a list of one. -/
def fitList (expected : String) (v : Value) : Except Misfit Default :=
  match v.unfold with
  | .text s => .ok (list [s])
  | .list items | .tuple items =>
    match texts? items with
    | some texts => .ok (list texts)
    | none => mismatch expected v.kindName none
  | _ => mismatch expected v.kindName none

def fitText (expected : String) (v : Value) : Except Misfit Default :=
  match v with
  | .text s => .ok (text s)
  | _ => mismatch expected v.kindName none

def fitChoice (expected : String) (options : Options) (v : Value) : Except Misfit Default :=
  match v with
  | .text s =>
    if s ∈ options.texts then .ok (text s)
    else mismatch expected (Quoted.quote s) (some "not one of the options")
  | _ => mismatch expected v.kindName none

def fitFlag (expected : String) (v : Value) : Except Misfit Default :=
  match v with
  | .bool b => .ok (flag b)
  | _ => mismatch expected v.kindName none

/-- An integer within the bounds of a width. -/
def fitWidth (expected : String) (width : Nat) (i : Int) : Except Misfit Default :=
  let (low, high) := NumberKind.bounds width
  if low ≤ i ∧ i ≤ high then .ok (integer i)
  else if isLong i then .error .tooManyDigits
  else mismatch expected (toString i) (some ("outside " ++ toString low ++ ".." ++ toString high))

/-- A flag is never a number, and a fraction is never an integer. -/
def fitNumber (expected : String) (kind : NumberKind) (v : Value) : Except Misfit Default :=
  match kind.width?, v with
  | some width, .int i => fitWidth expected width i
  | some width, .float x =>
    match x.toInt? with
    | some i => fitWidth expected width i
    | none => mismatch expected "float" none
  | none, .int i =>
    match Binary64.ofInt? i with
    | some x => .ok (float x)
    | none => .error .beyondFloat
  | none, .float x => .ok (float x)
  | _, _ => mismatch expected v.kindName none

/-- A type that is not known takes every plain value under the tag of its own kind. -/
def fitOther (expected : String) (v : Value) : Except Misfit Default :=
  match v with
  | .bool b => .ok (flag b)
  | .int i => .ok (integer i)
  | .float x => .ok (float x)
  | .text s => .ok (text s)
  | _ => fitList expected v

/-- The default that a value is under a declared type. -/
def fit (type : ValueType) (v : Value) : Except Misfit Default :=
  match type with
  | .string | .time => fitText type.label v
  | .choice options => fitChoice type.label options v
  | .boolean => fitFlag type.label v
  | .list => fitList type.label v
  | .number kind => fitNumber type.label kind v
  | .other _ => fitOther type.label v

/-- The value that a default stands for; a list is kept as a fixed sequence. -/
def toValue : Default → Value
  | text s => .text s
  | flag b => .bool b
  | integer i => .int i
  | float x => .float x
  | list items => .tuple (items.map .text)

/-- The shapes in which a default can be asked for. -/
inductive Shape where
  | text
  | flag
  | integer
  | float
  | list
  | tuple
  | other (name : String)
  deriving DecidableEq, Repr

def Shape.name : Shape → String
  | text => "str"
  | flag => "bool"
  | integer => "int"
  | float => "float"
  | list => "list"
  | tuple => "tuple"
  | other name => name

/-- Reads a default in a shape: only the shape of its own tag will do, and a list has two. -/
def readAs (d : Default) (shape : Shape) : Except TypeMismatch Value :=
  match d, shape with
  | text s, .text => .ok (.text s)
  | flag b, .flag => .ok (.bool b)
  | integer i, .integer => .ok (.int i)
  | float x, .float => .ok (.float x)
  | list items, .list => .ok (.list (items.map .text))
  | list items, .tuple => .ok (.tuple (items.map .text))
  | _, _ => .error ⟨shape.name, d.tag, none⟩

end Default

end EndpointBindings
