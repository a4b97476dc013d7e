import EndpointBindings.Endpoint
import EndpointBindings.Naming
import EndpointBindings.NameMap
import EndpointBindings.Defect
import EndpointBindings.Emission.TypeHint
import EndpointBindings.Emission.Docstring
import EndpointBindings.Emission.Literal
import EndpointBindings.Emission.Source

/-!
The class that holds the query parameters of an endpoint: a field for each parameter, the required
ones first, each group in the order of the parameters' own names.
-/

namespace EndpointBindings.Emission

open EndpointBindings.Naming EndpointBindings.Text

/-- A field of the class, with the name that the parameter has in a request. -/
structure Field where
  name : String
  wire : String
  param : Param
  deriving DecidableEq, Repr

namespace Field

/-- A field that may be left out without a default of its own may be `None`. -/
def hint (f : Field) : TypeHint :=
  let declared := TypeHint.ofType f.param.type
  if f.param.required || f.param.default.isSome || declared = .any then declared
  else .optional declared

def metadata (f : Field) : String :=
  "metadata=\x7b\"wire\": " ++ Escaped.ascii f.wire ++ "\x7d"

/-- What the field is when it is not given, if it may be left out. -/
def defaultText? (f : Field) : Option String :=
  if f.param.required then none
  else some (match f.param.default with | none => "None" | some d => literal d)

def declaration (f : Field) : String :=
  f.hint.render ++ " = dataclasses.field(" ++
    (match f.defaultText? with | none => "" | some d => "default=" ++ d ++ ", ") ++
    f.metadata ++ ")"

/-- Whether a field may be left out for an integer that is too long to be written. -/
def hasLongDefault (f : Field) : Bool :=
  match f.param.default with
  | some (.integer i) => !f.param.required && Number.isLong i
  | _ => false

def doc (f : Field) : String := docstringText (f.param.description.getD "")

def docLine (f : Field) : String :=
  "        " ++ f.name ++ ":" ++ (if f.doc.isEmpty then "" else " " ++ f.doc)

def line (f : Field) : String := "    " ++ f.name ++ ": " ++ f.declaration

end Field

/-- The name that every declaration in the class body uses. -/
def reservedFields : List String := ["dataclasses"]

/-- Fields under free names for parameters. -/
def nameFields (taken : List String) (params : List (String × Param)) : List Field :=
  nameInTurn (fun p => uniqueIdentifier (identifier p.1)) (fun p name => ⟨name, p.1, p.2⟩) taken
    params

/-- Parameters in the order of their names. -/
def sortParams (params : List (String × Param)) : List (String × Param) :=
  (NameMap.ofPairs params).entries

/-- The fields in the order in which the class declares them. -/
def fieldsOf (e : Endpoint) : List Field :=
  let fields := nameFields reservedFields (sortParams e.params)
  fields.filter (·.param.required) ++ fields.filter (!·.param.required)

def paramsClassLines (endpoint : String) (fields : List Field) : List String :=
  ["@dataclasses.dataclass(frozen=True)",
    "class " ++ className endpoint ++ ":",
    "    \"\"\"Query parameters accepted by \x60\x60" ++ docstringText endpoint ++ "\x60\x60."] ++
    (if fields.isEmpty then []
      else ["", "    Attributes:"] ++ fields.map Field.docLine) ++
    ["    \"\"\""] ++
    (if fields.isEmpty then [] else "" :: fields.map Field.line)

/-- The source of the class; an endpoint without a name has none. -/
def paramsClass (e : Endpoint) : Except Defect String :=
  match e.name with
  | none => .error .paramsWithoutName
  | some name =>
    let fields := fieldsOf e
    if fields.any Field.hasLongDefault then .error .tooManyDigits
    else .ok (joinLines (paramsClassLines name fields))

end EndpointBindings.Emission
