import EndpointBindings.Assembly
import EndpointBindings.Json.Reader
import EndpointBindings.Yaml.Document

/-!
Documents from their source: text, or octets that hold text. Without a hint a document is read as
JSON, and as YAML where that fails.
-/

namespace EndpointBindings

open EndpointBindings.Text

inductive Source where
  | text (s : String)
  | octets (octets : List UInt8)

/-- What is known of the format of a document. -/
inductive Hint where
  | none
  | json
  | yaml
  deriving DecidableEq, Repr

/-- The names of the formats are hints; any other word is none. -/
def Hint.ofString : String → Hint
  | "json" => .json
  | "yaml" => .yaml
  | _ => .none

/-- How a document is handed over: as it stands, or in a stream that is still to be read. -/
inductive Handover where
  | text (s : String)
  | bytes (octets : List UInt8)
  | byteArray (octets : List UInt8)
  | textStream (s : String)
  | byteStream (octets : List UInt8)

/-- What a reader finds: a stream gives all that it holds, and octets are the same in either kind of
array. -/
def Handover.source : Handover → Source
  | text s | textStream s => .text s
  | bytes octets | byteArray octets | byteStream octets => .octets octets

/-- How deep a document may nest where it is read, in each format: what the calls that are open
there leave of the stack. -/
structure Room where
  json : Nat
  yaml : Nat

instance : LE Room := ⟨fun r s => r.json ≤ s.json ∧ r.yaml ≤ s.yaml⟩

/-- The room for documents that are read one after the other. -/
def Room.inLine : Room := ⟨Json.maxDepth, Yaml.Builder.maxDepth⟩

namespace Document

open Assembly

/-- The text of a source; a byte-order mark in front of octets is no part of it. -/
def sourceText : Source → Except Failure String
  | .text s => .ok s
  | .octets octets =>
    match Utf8.decode (Utf8.dropMark octets) with
    | .ok cs => .ok (String.ofList cs)
    | .error fault => invalid (.notUtf8 fault)

/-- The entries of a document, which is an object. -/
def requireObject (v : Value) : Except Failure Fields :=
  match v.unfold with
  | .mapping entries => .ok entries
  | .null => invalid (.notObject "empty document")
  | _ => invalid (.notObject v.typeName)

def readYaml (orElse : DocumentFault) (s : String) (room : Room) : Except Failure Value :=
  match Yaml.readWithin room.yaml s.toList with
  | .ok v => .ok v
  | .error .malformed | .error .tooDeep => .error (.spec (.invalidDocument orElse))
  | .error (.defect d) => .error (.defect d)

def decode (hint : Hint) (s : String) (room : Room := .inLine) : Except Failure Value :=
  match hint with
  | .yaml => readYaml .invalidYaml s room
  | .json =>
    match Json.readWithin room.json s.toList with
    | .ok v => .ok v
    | .error fault => .error (.spec (.invalidDocument (.invalidJson (fault.message s.toList))))
  | .none =>
    match Json.readWithin room.json s.toList with
    | .ok v => .ok v
    | .error fault => readYaml (.neitherFormat (fault.message s.toList)) s room

/-- The entries of the document in a source. -/
def load (source : Source) (hint : Hint) (room : Room := .inLine) : Except Failure Fields := do
  let s ← sourceText source
  if allBlank s then invalid .empty
  else requireObject (← decode hint s room)

/-- The entries of a document that is handed over with a word on its format. -/
def loadFrom (h : Handover) (hint : String) : Except Failure Fields :=
  load h.source (.ofString hint)

/-- The endpoint of the document in a source. -/
def parse (source : Source) (hint : Hint) (room : Room := .inLine) : Except Failure Endpoint := do
  assemble (← load source hint room)

end Document

end EndpointBindings
