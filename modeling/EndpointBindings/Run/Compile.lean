import EndpointBindings.CommandLine
import EndpointBindings.Compilation
import EndpointBindings.Publishing
import EndpointBindings.Run

/-!
Compiling a directory. Files that fail are told one by one; where none may fail, nothing is written
if one does.
-/

namespace EndpointBindings.Run

/-- The settings that the command line gives. -/
def commandLayer (specDir outDir : Option String) (strict : Option Bool) (workers : Option Nat) :
    Layer
  | .specDir => specDir.map Value.text
  | .outDir => outDir.map Value.text
  | .strict => strict.map Value.bool
  | .workers => workers.map fun n => .int n
  | .included | .excluded => none

/-- Settings with the two directories that a compilation needs. -/
structure Job where
  config : CompilerConfig
  specDir : String
  outDir : String

def jobOf (config : CompilerConfig) : Except RunError Job :=
  match config.specDir, config.outDir with
  | none, _ => .error .noSpecDirectory
  | some _, none => .error .noOutDirectory
  | some specDir, some outDir => .ok ⟨config, specDir, outDir⟩

def warnings (c : Compilation) : List Remark :=
  c.errors.map fun e => ⟨.warning, e.file ++ ": " ++ e.error.message⟩

def errorValue (e : FileError) : Value :=
  .mapping [(.text "file", .text e.file), (.text "kind", .text e.error.kind.name),
    (.text "message", .text e.error.message)]

/-- What was written from what, for other programs. -/
def summary (job : Job) (c : Compilation) (written : List String) : Value :=
  .mapping [(.text "spec_dir", .text job.specDir), (.text "out_dir", .text job.outDir),
    (.text "endpoints", .list (c.registry.names.map Value.text)),
    (.text "files", .list (written.map Value.text)),
    (.text "errors", .list (c.errors.map errorValue))]

/-- What was written, for people. -/
def closing (job : Job) (c : Compilation) : List Remark :=
  let skipped := if c.isClean then [] else
    [⟨.info, toString c.errors.length ++ " spec file(s) skipped."⟩,
      ⟨.suggest, "Run: specbind inspect errors " ++ job.specDir⟩]
  skipped ++ [⟨.success,
    "Compiled " ++ toString c.registry.size ++ " endpoint(s) into " ++ job.outDir⟩]

/-- Writes the bindings of what compiled. -/
def publishAll (w : World) (json : Bool) (job : Job) (c : Compilation) (remarks : List Remark) :
    Run :=
  match publish (fun _ => FileSystem.noFault) c.registry w.cwd (.ofString job.outDir) w.files with
  | (files, .error d) => failed { w with files } remarks (.defect d)
  | (files, .ok written) =>
    if json then done files remarks (.response (summary job c written))
    else done files (remarks ++ closing job c) .none

def compileJob (w : World) (json : Bool) (job : Job) : Run :=
  let start : Remark := ⟨.debug, "Compiling " ++ job.specDir ++ " with " ++
    toString job.config.workers ++ " worker(s)"⟩
  match Compilation.ofDirectory w job.specDir job.config with
  | .error e => failed w [start] (.ofDocument e)
  | .ok c =>
    let remarks := start :: warnings c
    if job.config.strict && !c.isClean then failed w remarks (.failedFiles c.errors)
    else publishAll w json job c remarks

/-- Compiles a directory with the settings that a layer of the command line completes. -/
def compile (w : World) (json : Bool) (layer : Layer) (excluded : List String) : Run :=
  match (Config.resolve w layer excluded).mapError RunError.ofConfig >>= jobOf with
  | .error e => failed w [] e
  | .ok job => compileJob w json job

end EndpointBindings.Run
