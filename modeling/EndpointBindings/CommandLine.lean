import EndpointBindings.CommandLine.Arguments
import EndpointBindings.Number.Count

/-!
The command line of the program: options for all commands, then a command with its own. It is read
in two steps, since the settings that the first part needs are looked up before the second is read.
-/

namespace EndpointBindings.CommandLine

open EndpointBindings.Number

/-- What of a compiled directory is listed. -/
inductive Subject where
  | endpoints
  | errors
  deriving DecidableEq, Repr

inductive Command where
  /-- Writes the bindings of a directory of documents. -/
  | compile (specDir outDir : Option String) (strict : Option Bool) (workers : Option Nat)
      (excluded : List String)
  /-- Prints the module of one document. -/
  | show (specFile : String) (verb : Option String)
  | inspect (subject : Subject) (specDir : Option String) (excluded : List String)
  deriving DecidableEq, Repr

/-- The options in front of a command. -/
structure RootOptions where
  json : Bool
  plain : Bool
  noColor : Bool
  quiet : Bool
  verbose : Bool
  deriving DecidableEq, Repr

/-- What a usage text is about. -/
inductive Topic where
  | program
  | compile
  | show
  | inspect
  | listing (subject : Subject)
  deriving DecidableEq, Repr

/-- Why nothing is run. -/
inductive Stop where
  | version
  | help (topic : Topic)
  /-- A command that needs more was given alone. -/
  | bare (topic : Topic)
  | usage (topic : Topic) (fault : UsageFault)
  deriving DecidableEq, Repr

namespace Topic

def optionsOf : Topic → List OptionName
  | program => [.version, .json, .plain, .noColor, .quiet, .verbose, .help]
  | compile => [.out, .strict, .noStrict, .workers, .exclude, .help]
  | .show => [.verb, .help]
  | inspect => [.help]
  | listing _ => [.exclude, .help]

/-- The names that follow the program's and a group's. -/
def commandsOf : Topic → List (String × Topic)
  | program => [("compile", .compile), ("show", .show), ("inspect", .inspect)]
  | inspect => [("endpoints", listing .endpoints), ("errors", listing .errors)]
  | _ => []

end Topic

/-- The arguments of a topic, unless one of its options ends the run. -/
def readTopic (t : Topic) (words : List String) : Except Stop Arguments := do
  let a ← (readArguments t.optionsOf (!t.commandsOf.isEmpty) words).mapError (Stop.usage t)
  match a.firstOf? [.version, .help] with
  | some .version => .error .version
  | some _ => .error (.help t)
  | none => return a

/-- The command that words start with, and the words after it. Where there is none of that name the
words are looked at once more for options that end the reading, which two dashes may have hidden. -/
def readCommand (t : Topic) : List String → Except Stop (Topic × List String)
  | [] => .error (.usage t .missingCommand)
  | word :: rest =>
    match t.commandsOf.lookup word with
    | some command => .ok (command, rest)
    | none => do
      let _ ← readTopic t (word :: rest)
      .error (.usage t (.unknownCommand word))

/-- A topic with commands: its arguments and the command. -/
def readGroup (t : Topic) (words : List String) :
    Except Stop (Arguments × Topic × List String) := do
  if words.isEmpty then .error (.bare t)
  else
    let a ← readTopic t words
    return (a, ← readCommand t a.words)

/-- Reads up to the command. -/
def readRoot (words : List String) : Except Stop (RootOptions × Topic × List String) := do
  let (a, command) ← readGroup .program words
  return (⟨a.has .json, a.has .plain, a.has .noColor, a.has .quiet, a.has .verbose⟩, command)

/-- At most one word. -/
def readOneWord (t : Topic) : List String → Except Stop (Option String)
  | [] => .ok none
  | [word] => .ok (some word)
  | _ :: rest => .error (.usage t (.extraArguments rest))

/-- A count of at least one. -/
def readCount (t : Topic) (o : OptionName) (text : String) : Except Stop Nat :=
  match readCount? text.toList with
  | some (n + 1) => .ok (n + 1)
  | _ => .error (.usage t (.notCount o text))

/-- The arguments of a command that lists. -/
def readListing (subject : Subject) (words : List String) : Except Stop Command := do
  let a ← readTopic (.listing subject) words
  return .inspect subject (← readOneWord (.listing subject) a.words) (a.valuesOf .exclude)

/-- Reads a command's own arguments. -/
def Command.read (t : Topic) (words : List String) : Except Stop Command :=
  match t with
  | .compile => do
    let a ← readTopic .compile words
    let workers ← (a.value? .workers).mapM (readCount .compile .workers)
    let specDir ← readOneWord .compile a.words
    return .compile specDir (a.value? .out)
      ((a.lastOf? [.strict, .noStrict]).map (· == .strict)) workers (a.valuesOf .exclude)
  | .show => do
    let a ← readTopic .show words
    match ← readOneWord .show a.words with
    | some specFile => return .show specFile (a.value? .verb)
    | none => .error (.usage .show (.missingArgument "SPEC_FILE"))
  | .inspect => do
    match ← readGroup .inspect words with
    | (_, .listing subject, rest) => readListing subject rest
    | _ => .error (.usage .inspect .missingCommand)
  | .listing subject => readListing subject words
  | .program => .error (.usage .program .missingCommand)

end EndpointBindings.CommandLine
