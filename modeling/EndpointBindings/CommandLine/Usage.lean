import EndpointBindings.CommandLine
import EndpointBindings.Emission.Source

/-!
The texts that tell how the program is called.
-/

namespace EndpointBindings.CommandLine

def OptionName.purpose : OptionName → String
  | version => "Show version and exit."
  | json => "Write results as JSON."
  | plain => "Write results as plain text."
  | noColor => "Disable colour."
  | quiet => "Only report problems."
  | verbose => "Show debug messages."
  | out => "Directory to write the bindings package into."
  | strict => "Fail the run if any spec file fails."
  | noStrict => "Go on if a spec file fails."
  | workers => "Number of spec files that are read at a time."
  | exclude => "Gitignore-style pattern to skip (repeatable)."
  | verb => "Only show bindings for this HTTP verb (e.g. GET)."
  | help => "Show this message and exit."

/-- The names of an option in one line with what it does. -/
def OptionName.line (o : OptionName) : String :=
  let letter := match o.letter? with
    | some c => ", -" ++ c.toString
    | none => ""
  "  " ++ o.long ++ letter ++ (if o.takesValue then " VALUE" else "") ++ "  " ++ o.purpose

namespace Topic

/-- The words that call a topic, with what may follow them. -/
def call : Topic → String
  | .program => "specbind [OPTIONS] COMMAND [ARGS]..."
  | .compile => "specbind compile [OPTIONS] [SPEC_DIR]"
  | .show => "specbind show [OPTIONS] SPEC_FILE"
  | .inspect => "specbind inspect [OPTIONS] COMMAND [ARGS]..."
  | .listing .endpoints => "specbind inspect endpoints [OPTIONS] [SPEC_DIR]"
  | .listing .errors => "specbind inspect errors [OPTIONS] [SPEC_DIR]"

def purpose : Topic → String
  | .program => "Compile REST endpoint spec files into client bindings."
  | .compile => "Compile every spec file under SPEC_DIR and write the bindings."
  | .show => "Print the generated module for SPEC_FILE."
  | .inspect => "Inspect a compiled spec directory."
  | .listing .endpoints => "List every endpoint that compiles."
  | .listing .errors => "List every spec file that fails to compile, with the reason."

def usageLine (t : Topic) : String := "Usage: " ++ t.call ++ "\n"

def helpText (t : Topic) : String :=
  let options := t.optionsOf.map OptionName.line
  let commands := t.commandsOf.map fun (name, sub) => "  " ++ name ++ "  " ++ sub.purpose
  t.usageLine ++ "\n" ++ t.purpose ++ "\n\nOptions:\n" ++
    String.join (options.map (· ++ "\n")) ++
    (if commands.isEmpty then "" else "\nCommands:\n" ++ String.join (commands.map (· ++ "\n")))

end Topic

def UsageFault.message : UsageFault → String
  | unknownOption word => "No such option: " ++ word
  | unexpectedValue o => "Option '" ++ o.long ++ "' does not take a value."
  | missingValue o => "Option '" ++ o.long ++ "' requires an argument."
  | notCount o text => "Invalid value for '" ++ o.long ++ "': '" ++ text ++ "' is no count."
  | missingCommand => "Missing command."
  | unknownCommand name => "No such command '" ++ name ++ "'."
  | missingArgument name => "Missing argument '" ++ name ++ "'."
  | extraArguments words => "Got unexpected extra arguments (" ++ " ".intercalate words ++ ")"

/-- The version of the program, on a line of its own. -/
def versionLine : String := Emission.generator ++ "\n"

namespace Stop

def exitCode : Stop → Nat
  | version | help _ => 0
  | bare _ | usage .. => 2

/-- What is asked for goes to the output. -/
def output : Stop → String
  | version => versionLine
  | help t | bare t => t.helpText
  | usage .. => ""

def diagnostics : Stop → String
  | usage t fault => t.usageLine ++ "\nError: " ++ fault.message ++ "\n"
  | version | help _ | bare _ => ""

end Stop

end EndpointBindings.CommandLine
