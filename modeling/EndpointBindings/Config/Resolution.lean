import EndpointBindings.Config.Fault
import EndpointBindings.Config.Layer
import EndpointBindings.Config.Places
import EndpointBindings.Json.Reader
import EndpointBindings.Text.LineEnd
import EndpointBindings.Text.Utf8

/-!
The settings of a run: those of the user, under those of the project, under those of the
environment, under those of the command line.
-/

namespace EndpointBindings.Config

open EndpointBindings.Text

/-- Why settings cannot be had. -/
inductive Failure where
  | config (fault : ConfigFault)
  | defect (d : Defect)

/-- The JSON value in the octets of a file, or what makes the text malformed. -/
def readJson (octets : List UInt8) : Except Defect (Except String Value) :=
  match Utf8.decode octets with
  | .error _ => .error .notUtf8
  | .ok cs =>
    let text := unifyLineEnds cs
    match Json.read text with
    | .ok v => .ok (.ok v)
    | .error (.tooManyDigits _) => .error .tooManyDigits
    | .error (.tooDeep _) => .error .tooDeep
    | .error fault => .ok (.error (fault.message text))

def readCompiler : Value → Checked CompilerConfig
  | .mapping entries => (Layer.ofEntries entries).resolve .default
  | _ => .refuse

def readFormat : Value → Checked Console.Choice
  | .text s =>
    match Console.Choice.ofName? s with
    | some c => .ok c
    | none => .refuse
  | _ => .refuse

/-- The value under a key, if there is one. -/
def readUnder {α : Type} (key : String) (reader : Value → Checked α) (absent : α)
    (entries : List (Value × Value)) : Checked α :=
  match Value.field? key entries with
  | none => .ok absent
  | some v => (reader v).under key

def readOutput : Value → Checked Console.Choice
  | .mapping entries => readUnder "format" readFormat .automatic entries
  | _ => .refuse

def readGlobal : Value → Checked GlobalConfig
  | .mapping entries =>
    let compiler := readUnder "compiler" readCompiler .default entries
    let format := readUnder "output" readOutput .automatic entries
    match compiler, format with
    | .ok c, .ok f => .ok ⟨c, f⟩
    | _, _ => .error (compiler.places ++ format.places)
  | _ => .refuse

/-- The settings of the user, which are the usual ones where there is no file. -/
def globalConfig (w : World) : Except Failure GlobalConfig := do
  let path ← w.globalConfigPath.mapError Failure.defect
  match ← (w.octets? path).mapError Failure.defect with
  | none => return .default
  | some octets =>
    match ← (readJson octets).mapError Failure.defect with
    | .error reason => .error (.config (.malformedGlobal path.text reason))
    | .ok v => (readGlobal v).mapError fun ps => .config (.invalidGlobal path.text ps)

/-- The entries of the project's file, if there is one. -/
def projectEntries (w : World) : Except Failure (Option (List (Value × Value))) := do
  let path := w.projectConfigPath
  match ← (w.octets? path).mapError Failure.defect with
  | none => return none
  | some octets =>
    match ← (readJson octets).mapError Failure.defect with
    | .error reason => .error (.config (.malformedProject path.text reason))
    | .ok (.mapping entries) => .ok (some entries)
    | .ok _ => .error (.config (.projectNotObject path.text))

/-- The variable that gives a value to a setting. -/
def variableFor : Setting → Option String
  | .specDir => some "SPECBIND_SPEC_DIR"
  | .outDir => some "SPECBIND_OUT_DIR"
  | .workers => some "SPECBIND_WORKERS"
  | .included | .excluded | .strict => none

/-- The settings of the environment; an empty variable says nothing. -/
def environmentLayer (w : World) : Layer := fun s =>
  ((variableFor s).bind w.setVariable?).map Value.text

/-- The settings of a run. The command line gives a layer, and patterns that are skipped besides
those that the layers below tell to skip. -/
def resolve (w : World) (commandLine : Layer) (excluded : List String) :
    Except Failure CompilerConfig := do
  let user := (← globalConfig w).compiler
  let project := Layer.ofEntries ((← projectEntries w).getD [])
  let layers := commandLine.above ((environmentLayer w).above project)
  let layers ← (layers.exclude user excluded).mapError Failure.defect
  (layers.resolve user).mapError fun ps => .config (.invalidSettings ps)

end EndpointBindings.Config
