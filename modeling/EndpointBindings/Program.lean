import EndpointBindings.CommandLine.Usage
import EndpointBindings.Run.Compile
import EndpointBindings.Run.CrashLog
import EndpointBindings.Run.Inspect
import EndpointBindings.Run.Show

/-!
The program: a world and the words of a command line in, two texts, an exit code and files out.
-/

namespace EndpointBindings

/-- How the program ends: with an exit code, or by a defect that could not even be logged. -/
inductive Ending where
  | exit (code : Nat)
  | uncaught (d : Defect)
  deriving DecidableEq, Repr

/-- What a caller sees of the program when it has ended. -/
structure Finish where
  ending : Ending
  output : String
  diagnostics : String
  files : FileSystem

namespace Program

open CommandLine

def ofStop (w : World) (s : Stop) : Finish := ⟨.exit s.exitCode, s.output, s.diagnostics, w.files⟩

def ofRun (w : World) (c : Console) (r : Run) : Finish :=
  let (r, left) := r.log w
  let ending := match left with
    | none => Ending.exit r.exitCode
    | some d => .uncaught d
  ⟨ending, r.output c, r.diagnostics c, r.files⟩

/-- The format that the options ask for, or else the one that the user has set. -/
def formatFor (w : World) (o : RootOptions) : Except RunError Console.Choice :=
  if o.json then .ok (.fixed .json)
  else if o.plain then .ok (.fixed .plain)
  else ((Config.globalConfig w).mapError RunError.ofConfig).map (·.format)

/-- The console before anything is known of the options. -/
def initialConsole (w : World) : Console := .choose .automatic false false false w.terminal w.env

def consoleFor (w : World) (o : RootOptions) : Except RunError Console :=
  (formatFor w o).map fun choice => .choose choice o.noColor o.quiet o.verbose w.terminal w.env

def perform (w : World) (json : Bool) : Command → Run
  | .compile specDir outDir strict workers excluded =>
    Run.compile w json (Run.commandLayer specDir outDir strict workers) excluded
  | .show specFile verb => Run.showModule w specFile verb
  | .inspect subject specDir excluded => Run.inspect w subject specDir excluded

/-- Runs the program. The console is set up before the command's own arguments are read. -/
def run (w : World) (words : List String) : Finish :=
  match readRoot words with
  | .error stop => ofStop w stop
  | .ok (options, topic, rest) =>
    match consoleFor w options with
    | .error e => ofRun w (initialConsole w) (Run.failed w [] e)
    | .ok console =>
      match Command.read topic rest with
      | .error stop => ofStop w stop
      | .ok command => ofRun w console (perform w (console.format == .json) command)

end Program

end EndpointBindings
