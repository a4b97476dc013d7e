/-!
The kinds of errors that are reported to the caller, with the exit codes that go with them. Each
kind but the first is a special case of another.
-/

namespace EndpointBindings

inductive ErrorKind where
  | general
  | usage
  | config
  | spec
  | invalidDocument
  | unknownVerb
  | typeMismatch
  | missingField
  | duplicateEndpoint
  | specRead
  | compile
  deriving DecidableEq, Repr

namespace ErrorKind

/-- The name under which a kind is reported. -/
def name : ErrorKind → String
  | general => "SpecbindError"
  | usage => "InvalidUsageError"
  | config => "ConfigError"
  | spec => "SpecError"
  | invalidDocument => "InvalidDocumentError"
  | unknownVerb => "UnknownVerbError"
  | typeMismatch => "TypeMismatchError"
  | missingField => "MissingFieldError"
  | duplicateEndpoint => "DuplicateEndpointError"
  | specRead => "SpecReadError"
  | compile => "CompileError"

def all : List ErrorKind :=
  [general, usage, config, spec, invalidDocument, unknownVerb, typeMismatch, missingField,
   duplicateEndpoint, specRead, compile]

/-- The kind of a name. -/
def ofName? (s : String) : Option ErrorKind := all.find? (·.name == s)

/-- The kinds that a kind belongs to, itself first. -/
def lineage : ErrorKind → List ErrorKind
  | general => [general]
  | usage => [usage, general]
  | config => [config, general]
  | spec => [spec, general]
  | compile => [compile, general]
  | k => [k, spec, general]

/-- Bad usage, bad documents and unreadable files each have a code of their own. -/
def exitCode : ErrorKind → Nat
  | general | config => 1
  | usage => 2
  | specRead => 4
  | _ => 3

end ErrorKind

/-- An error as it is reported. -/
structure Report where
  kind : ErrorKind
  message : String
  exitCode : Nat
  deriving DecidableEq, Repr

/-- A report under the exit code of its kind. -/
def Report.of (kind : ErrorKind) (message : String) : Report := ⟨kind, message, kind.exitCode⟩

end EndpointBindings
