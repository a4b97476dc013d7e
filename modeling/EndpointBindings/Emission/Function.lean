import EndpointBindings.Endpoint
import EndpointBindings.Naming
import EndpointBindings.Emission.TypeHint
import EndpointBindings.Emission.Docstring
import EndpointBindings.Emission.Source

/-!
Binding functions: one for each verb and path of an endpoint. A function is planned as a structure
and then written as lines.
-/

namespace EndpointBindings.Emission

open EndpointBindings.Naming EndpointBindings.Text

/-- Whether a call of the verb sends the declared body: never with `HEAD`, with `GET` only when it
is required. -/
def acceptsBody (verb : Verb) (body : Option Body) : Bool :=
  match body, verb with
  | none, _ => false
  | some _, .head => false
  | some b, .get => b.required
  | some _, .post | some _, .put | some _, .delete => true

/-- An argument of a function; one with a default has the default `None`. -/
structure Argument where
  name : String
  hint : TypeHint
  hasDefault : Bool
  deriving DecidableEq, Repr

def Argument.render (a : Argument) : String :=
  a.name ++ ": " ++ a.hint.render ++ (if a.hasDefault then " = None" else "")

/-- A path part with the argument that carries its value. -/
structure PartArgument where
  part : PathPart
  name : String
  deriving DecidableEq, Repr

/-- The argument names that every function keeps for itself. -/
def reservedArguments : List String := ["transport", "params", "body"]

/-- Path parts with free argument names. -/
def partArguments (taken : List String) (parts : List PathPart) : List PartArgument :=
  nameInTurn (fun part => uniqueIdentifier (identifier part.name)) PartArgument.mk taken parts

structure Function where
  name : String
  verb : Verb
  path : PathTemplate
  parts : List PartArgument
  paramsClass : String
  paramsRequired : Bool
  /-- The body that a call sends. -/
  body : Option Body
  deriving DecidableEq, Repr

namespace Function

def bodyRequired (f : Function) : Bool := f.body.any (·.required)

/-- Required arguments stand before those with a default. -/
def arguments (f : Function) : List Argument :=
  [⟨"transport", .named "Transport", false⟩] ++
    f.parts.map (fun p => ⟨p.name, .ofType p.part.type, false⟩) ++
    (if f.bodyRequired then [⟨"body", .any, false⟩] else []) ++
    [if f.paramsRequired then ⟨"params", .named f.paramsClass, false⟩
      else ⟨"params", .optional (.named f.paramsClass), true⟩] ++
    (if f.body.isSome && !f.bodyRequired then [⟨"body", .any, true⟩] else [])

/-- A name with the text that describes it; an empty description describes nothing. -/
def described (name : String) (description : Option String) : List (String × String) :=
  match description with
  | none | some "" => []
  | some text => [(name, docstringText text)]

def argumentDocs (f : Function) : List (String × String) :=
  f.parts.flatMap (fun p => described p.name p.part.description) ++
    described "body" (f.body.bind (·.description))

def summary (f : Function) : String := docstringText (f.verb.token ++ " " ++ f.path.raw)

/-- The mapping from part names to the arguments that carry them. -/
def partsMapping (f : Function) : String :=
  "\x7b" ++
    ", ".intercalate (f.parts.map fun p => Escaped.ascii p.part.name ++ ": " ++ p.name) ++ "\x7d"

/-- The hint on how to write the body that goes with the call. -/
def serializeHint (f : Function) : List String :=
  match f.body.bind (·.serialize) with
  | none | some "" => []
  | some hint => ["serialize=" ++ Escaped.ascii hint]

/-- The arguments of the call by keyword. -/
def keywordArguments (f : Function) : List String :=
  (if f.parts.isEmpty then [] else ["parts=" ++ f.partsMapping]) ++ ["params=params"] ++
    (if f.body.isSome then ["body=body"] else []) ++ f.serializeHint

def docLines (f : Function) : List String :=
  if f.argumentDocs.isEmpty then ["    \"\"\"" ++ f.summary ++ "\"\"\""]
  else
    ["    \"\"\"" ++ f.summary, "", "    Args:"] ++
      f.argumentDocs.map (fun d => "        " ++ d.1 ++ ": " ++ d.2) ++ ["    \"\"\""]

def lines (f : Function) : List String :=
  ["def " ++ f.name ++ "("] ++ f.arguments.map (fun a => "    " ++ a.render ++ ",") ++
    [") -> Any:"] ++ f.docLines ++
    ["    return transport.request(",
      "        " ++ Escaped.ascii f.verb.token ++ ",",
      "        " ++ Escaped.ascii f.path.raw ++ ","] ++
    f.keywordArguments.map (fun k => "        " ++ k ++ ",") ++ ["    )"]

def render (f : Function) : String := joinLines f.lines

end Function

/-- The function of a verb for a path. -/
def functionOf (e : Endpoint) (className : String) (verb : Verb) (path : PathTemplate)
    (name : String) : Function :=
  { name, verb, path
    parts := partArguments reservedArguments path.parts
    paramsClass := className
    paramsRequired := e.params.any (·.2.required)
    body := if acceptsBody verb e.body then e.body else none }

/-- The functions of a verb, one for each path, under names that are not taken. -/
def functionsOf (e : Endpoint) (className : String) (verb : Verb) (taken : List String)
    (paths : List PathTemplate) : List Function :=
  nameInTurn (fun path => uniqueFunctionName (functionName verb (path.parts.map (·.name))))
    (functionOf e className verb) taken paths

/-- The bindings of one verb of an endpoint. -/
structure Binding where
  endpoint : String
  verb : Verb
  functions : List Function
  deriving DecidableEq, Repr

def Binding.functionNames (b : Binding) : List String := b.functions.map (·.name)

/-- The functions with two empty lines between them. -/
def Binding.body (b : Binding) : String := "\n\n\n".intercalate (b.functions.map Function.render)

def Binding.source (b : Binding) : String := b.body ++ "\n"

end EndpointBindings.Emission
