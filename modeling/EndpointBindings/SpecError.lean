import EndpointBindings.Default
import EndpointBindings.Json.Fault
import EndpointBindings.Text.Utf8
import EndpointBindings.ErrorKind

/-!
Why a document, or a file, gives no endpoint. Each error is its cause; `message` words it.
-/

namespace EndpointBindings

open EndpointBindings.Text

/-- What is wrong with the form or the shape of a document. -/
inductive DocumentFault where
  | notUtf8 (fault : Utf8.Fault)
  | empty
  | invalidJson (reason : String)
  | invalidYaml
  | neitherFormat (jsonReason : String)
  | notObject (kind : String)
  | notOfShape (field shape : String)
  /-- What was found is given as messages show it, here and below. -/
  | notFlag (field found : String)
  | endpointNameNotText (found : String)
  | paramNameNotText (found : String)
  | pathNotText
  | unbalancedBraces (template : String)
  | emptyPart (template : String)

namespace DocumentFault

def message : DocumentFault → String
  | notUtf8 fault => "Document is not valid UTF-8: " ++ fault.message
  | empty => "Document is empty"
  | invalidJson reason => "Invalid JSON: " ++ reason
  | invalidYaml => "Invalid YAML: malformed document"
  | neitherFormat reason =>
    "Failed to parse document as JSON or YAML\n  JSON error: " ++ reason ++
      "\n  YAML error: malformed document"
  | notObject kind => "Document must be a JSON/YAML object (got " ++ kind ++ ")"
  | notOfShape field shape => "'" ++ field ++ "' must be " ++ shape
  | notFlag field found => "'" ++ field ++ "' must be a boolean, got " ++ found
  | endpointNameNotText found => "Endpoint name must be a string, got " ++ found
  | paramNameNotText found => "Param name must be a string, got " ++ found
  | pathNotText => "'url.paths' entries must be strings"
  | unbalancedBraces template => "Unbalanced braces in path template " ++ Quoted.quote template
  | emptyPart template => "Empty path part in template " ++ Quoted.quote template

end DocumentFault

/-- Where a file could not be read. -/
inductive ReadFault where
  | noFile (path : String)
  | noDirectory (path : String)
  deriving DecidableEq, Repr

def ReadFault.message : ReadFault → String
  | noFile path => "Spec file not found: " ++ path
  | noDirectory path => "Spec directory not found: " ++ path

inductive SpecError where
  | invalidDocument (fault : DocumentFault)
  | unknownVerb (token : String)
  | typeMismatch (mismatch : TypeMismatch)
  | missingField (field : String)
  | duplicateEndpoint (name : String) (firstFile : Option String)
  | unreadable (fault : ReadFault)

/-- An empty detail says nothing. -/
def TypeMismatch.message (m : TypeMismatch) : String :=
  "Type mismatch: expected " ++ m.expected ++ ", got " ++ m.actual ++
    (match m.detail with
    | none | some "" => ""
    | some detail => " (" ++ detail ++ ")")

/-- A file of a directory with what is wrong with it. -/
structure FileError where
  file : String
  error : SpecError

/-- The summary of files that failed, one a line. -/
def failureSummary (failures : List (String × String)) : String :=
  "\n".intercalate ((toString failures.length ++ " spec file(s) failed to compile:") ::
    failures.map fun (file, message) => "  " ++ file ++ ": " ++ message)

namespace SpecError

def message : SpecError → String
  | invalidDocument fault => fault.message
  | unknownVerb token => "Unknown HTTP method: " ++ Quoted.quote token
  | typeMismatch m => m.message
  | missingField field => "Missing required field: " ++ field
  | duplicateEndpoint name firstFile =>
    "Duplicate endpoint name: " ++ Quoted.quote name ++
      (match firstFile with
      | none | some "" => ""
      | some file => " (already defined in " ++ file ++ ")")
  | unreadable fault => fault.message

def kind : SpecError → ErrorKind
  | invalidDocument _ => .invalidDocument
  | unknownVerb _ => .unknownVerb
  | typeMismatch _ => .typeMismatch
  | missingField _ => .missingField
  | duplicateEndpoint .. => .duplicateEndpoint
  | unreadable _ => .specRead

def report (e : SpecError) : Report := .of e.kind e.message

end SpecError

end EndpointBindings
