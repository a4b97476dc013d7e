import EndpointBindings.Endpoint
import EndpointBindings.SpecError
import EndpointBindings.Defect
import EndpointBindings.Text.Blank

/-!
Documents as endpoints. A document is an endpoint body, or one name over an endpoint body. Every
field is checked in a fixed order, and the first fault is the answer.
-/

namespace EndpointBindings

open EndpointBindings.Text

/-- The entries of a mapping. -/
abbrev Fields := List (Value × Value)

/-- Why a document gives no endpoint: it is at fault, or it ends the run. -/
inductive Failure where
  | spec (error : SpecError)
  | defect (defect : Defect)

namespace Assembly

def fail {α : Type} (error : SpecError) : Except Failure α := .error (.spec error)

def invalid {α : Type} (fault : DocumentFault) : Except Failure α := fail (.invalidDocument fault)

/-- A value as messages show it. -/
def shown (v : Value) : Except Failure String := v.shown.mapError .defect

/-- A value as a text of its own. -/
def textOf (v : Value) : Except Failure String := v.shownText.mapError .defect

def requireMapping (v : Value) (field : String) : Except Failure Fields :=
  match v.unfold with
  | .mapping entries => .ok entries
  | _ => invalid (.notOfShape field "an object")

def requireList (v : Value) (field : String) : Except Failure (List Value) :=
  match v.unfold with
  | .list items => .ok items
  | _ => invalid (.notOfShape field "a list")

/-- A text, or nothing for null. -/
def optionalText (v : Value) (field : String) : Except Failure (Option String) :=
  match v with
  | .null => .ok none
  | .text s => .ok (some s)
  | _ => invalid (.notOfShape field "a string")

/-- A flag; null is the flag that is not set. -/
def flag (v : Value) (field : String) : Except Failure Bool :=
  match v with
  | .null => .ok false
  | .bool b => .ok b
  | _ => do invalid (.notFlag field (← shown v))

/-- The options of a declaration as texts, none for null. -/
def options (declaration : Fields) (field : String) : Except Failure (List String) :=
  match Value.field "options" declaration with
  | .null => .ok []
  | v => do (← requireList v (field ++ ".options")).mapM textOf

def resolveType (name : String) (options : List String) : Except Failure ValueType :=
  match ValueType.resolve? name options with
  | some t => .ok t
  | none =>
    fail (.typeMismatch
      ⟨ValueType.choiceName, "no options", some "enum types must declare options"⟩)

/-- The declared type, whose name may be any value that is not null. -/
def declaredType (declaration : Fields) (field : String) : Except Failure ValueType :=
  match Value.field "type" declaration with
  | .null => fail (.missingField (field ++ ".type"))
  | v => do
    let name ← textOf v
    resolveType name (← options declaration field)

/-- The part that a brace group names. -/
def part (parts : Fields) (raw : String) (group : List Char) : Except Failure PathPart := do
  let name := String.ofList (trim group)
  if name.isEmpty then invalid (.emptyPart raw)
  else
    let field := "url.parts." ++ name
    match Value.field name parts with
    | .null => fail (.missingField field)
    | v =>
      let declaration ← requireMapping v field
      let type ← declaredType declaration field
      let description ←
        optionalText (Value.field "description" declaration) (field ++ ".description")
      return ⟨name, type, description⟩

/-- A chunk of a template as a segment; a brace outside every group is a fault. -/
def segment (parts : Fields) (raw : String) : PathTemplate.Chunk → Except Failure Segment
  | .literal text =>
    if '\x7b' ∈ text || '\x7d' ∈ text then invalid (.unbalancedBraces raw)
    else .ok (.literal (String.ofList text))
  | .group g => return .part (← part parts raw g)

def pathTemplate (raw : String) (parts : Fields) : Except Failure PathTemplate := do
  return ⟨raw, ← (PathTemplate.chunks raw.toList).mapM (segment parts raw)⟩

/-- The templates of the listed texts; a text that was seen is passed over. -/
def pathTemplates (parts : Fields) (seen : List String) :
    List Value → Except Failure (List PathTemplate)
  | [] => .ok []
  | .text raw :: rest =>
    if raw ∈ seen then pathTemplates parts seen rest
    else do
      let template ← pathTemplate raw parts
      return template :: (← pathTemplates parts (raw :: seen) rest)
  | _ :: _ => invalid .pathNotText

/-- The list of paths, or else the single path. -/
def rawPaths (url : Fields) : Value :=
  match Value.field "paths" url with
  | .null =>
    match Value.field "path" url with
    | .null => .list []
    | single => .list [single]
  | listed => listed

def paths (url parts : Fields) : Except Failure (List PathTemplate) := do
  let raws ← requireList (rawPaths url) "url.paths"
  if raws.isEmpty then fail (.missingField "url.paths")
  else pathTemplates parts [] raws

def verb (token : Value) : Except Failure Verb :=
  match token with
  | .text s =>
    match Verb.ofToken? s with
    | some v => .ok v
    | none => fail (.unknownVerb s)
  | v => do fail (.unknownVerb (← textOf v))

def verbs (methods : Value) : Except Failure (List Verb) :=
  if methods.isBlank then fail (.missingField "methods")
  else do
    let tokens ← requireList methods "methods"
    return Verb.canonical (← tokens.mapM verb)

def misfit : Misfit → Failure
  | .mismatch m => .spec (.typeMismatch m)
  | .beyondFloat => .defect .integerBeyondFloat
  | .tooManyDigits => .defect .tooManyDigits

/-- A parameter from its declaration; the default is looked at last. -/
def param (name : String) (v : Value) : Except Failure Param := do
  let field := "url.params." ++ name
  let declaration ← requireMapping v field
  let type ← declaredType declaration field
  let required ← flag (Value.field "required" declaration) (field ++ ".required")
  let description ← optionalText (Value.field "description" declaration) (field ++ ".description")
  (Param.declare type required (Value.field "default" declaration) description).mapError misfit

def params : Fields → Except Failure (List (String × Param))
  | [] => .ok []
  | (.text name, v) :: rest => do
    let p ← param name v
    return (name, p) :: (← params rest)
  | (k, _) :: _ => do invalid (.paramNameNotText (← shown k))

/-- A link, or an object with a link or a description. -/
def documentation (v : Value) : Except Failure (Option String) :=
  match v.unfold with
  | .mapping entries =>
    optionalText ((Value.field "url" entries).orElse (Value.field "description" entries))
      "documentation"
  | _ => optionalText v "documentation"

def body (v : Value) : Except Failure (Option Body) :=
  match v with
  | .null => .ok none
  | _ => do
    let fields ← requireMapping v "body"
    let required ← flag (Value.field "required" fields) "body.required"
    let description ← optionalText (Value.field "description" fields) "body.description"
    let serialize ← optionalText (Value.field "serialize" fields) "body.serialize"
    return some ⟨required, description, serialize⟩

/-- The fields that mark a mapping as an endpoint body. -/
def bodyFields : List String := ["methods", "url", "documentation", "body"]

def isBody (document : Fields) : Bool :=
  bodyFields.any fun name => (Value.field? name document).isSome

/-- The name and the body of a document. -/
def unwrap (document : Fields) : Except Failure (Option String × Fields) :=
  if isBody document then
    match Value.field "name" document with
    | .null => .ok (none, document)
    | .text name => .ok (some name, document)
    | _ => invalid (.notOfShape "name" "a string")
  else
    match document with
    | [(key, v)] =>
      match v.unfold, key with
      | .mapping body, .text name => .ok (some name, body)
      | .mapping _, _ => do invalid (.endpointNameNotText (← shown key))
      | _, _ => fail (.missingField "methods")
    | _ => fail (.missingField "methods")

end Assembly

open Assembly in
/-- The endpoint of a document. -/
def assemble (document : Fields) : Except Failure Endpoint := do
  let (name, fields) ← unwrap document
  let verbs ← verbs (Value.field "methods" fields)
  let url ← match Value.field "url" fields with
    | .null => fail (.missingField "url")
    | v => requireMapping v "url"
  let parts ← requireMapping ((Value.field "parts" url).orElse (.mapping [])) "url.parts"
  let paths ← paths url parts
  let declared ← requireMapping ((Value.field "params" url).orElse (.mapping [])) "url.params"
  let params ← params declared
  let documentation ← documentation (Value.field "documentation" fields)
  let body ← body (Value.field "body" fields)
  return { name, documentation, verbs, paths, params, body }

end EndpointBindings
