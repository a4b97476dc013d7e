import EndpointBindings.Json.Writer

/-!
What the program writes. Results go to the output, in one of three formats; diagnostics go to the
error stream, each kind with its own lead.
-/

namespace EndpointBindings

/-- The variables of the environment. -/
abbrev Environment := List (String × String)

namespace Console

/-- How results are written. -/
inductive Format where
  | json
  | plain
  | rich
  deriving DecidableEq, Repr

def Format.name : Format → String
  | json => "json"
  | plain => "plain"
  | rich => "rich"

/-- A format that is asked for; automatic is none in particular. -/
inductive Choice where
  | automatic
  | fixed (format : Format)
  deriving DecidableEq, Repr

def Choice.name : Choice → String
  | automatic => "auto"
  | fixed f => f.name

def Choice.all : List Choice := [.automatic, .fixed .json, .fixed .plain, .fixed .rich]

def Choice.ofName? (s : String) : Option Choice := all.find? (·.name == s)

/-- What the diagnostics are for. -/
inductive Diagnostic where
  | info
  | success
  | suggest
  | warning
  | error
  | debug
  deriving DecidableEq, Repr

namespace Diagnostic

def lead : Diagnostic → String
  | info | success => ""
  | suggest => "→ "
  | warning => "Warning: "
  | error => "Error: "
  | debug => "[debug] "

/-- The kinds that only tell how things go. -/
def isChatter : Diagnostic → Bool
  | info | success | suggest => true
  | warning | error | debug => false

end Diagnostic

/-- Any value of `NO_COLOR`, and the terminal `dumb`, forbid colour. -/
def forbidsColor (env : Environment) : Bool :=
  (env.lookup "NO_COLOR").isSome || env.lookup "TERM" == some "dumb"

end Console

structure Console where
  format : Console.Format
  quiet : Bool
  verbose : Bool
  deriving DecidableEq, Repr

namespace Console

/-- A console as it is asked for. The automatic format is rich on a terminal that may show
colour. -/
def choose (choice : Choice) (noColor quiet verbose terminal : Bool) (env : Environment) :
    Console :=
  let format := match choice with
    | .fixed f => f
    | .automatic => if terminal && !noColor && !forbidsColor env then .rich else .plain
  ⟨format, quiet, verbose⟩

/-- Whether a diagnostic is written at all. -/
def shows (c : Console) (d : Diagnostic) : Bool :=
  if d = .debug then c.verbose else !(c.quiet && d.isChatter)

/-- A diagnostic as it is written to the error stream. -/
def diagnostic (c : Console) (d : Diagnostic) (message : String) : String :=
  if c.shows d then d.lead ++ message ++ "\n" else ""

/-- The least level of the log records that are written. -/
def logLevel (c : Console) : Nat := if c.verbose then 10 else if c.quiet then 40 else 30

def line (text : String) : String := text ++ "\n"

/-- The values of a mapping in one line, or any other value as a text. -/
def plainItem : Value → String
  | .mapping entries => "\t".intercalate (entries.map (·.2.toText))
  | v => v.toText

/-- A value in lines: a mapping by its entries, a list by its items. -/
def plainLines : Value → List String
  | .mapping entries => entries.map fun (k, v) => k.toText ++ "\t" ++ v.toText
  | .list items => items.map plainItem
  | v => [v.toText]

/-- A result as it is written to the output. -/
def response (c : Console) (v : Value) : String :=
  match c.format with
  | .plain => String.join ((plainLines v).map line)
  | .json | .rich => line (Json.write v)

/-- A row under its headers; of two headers of one name the later gives the value. -/
def record (headers row : List String) : Value :=
  .mapping (Value.ofPairs ((headers.zip row).map fun (h, c) => (.text h, .text c)))

/-- A table: as records, or as the rows under their headers with tabs between the cells. -/
def table (c : Console) (headers : List String) (rows : List (List String)) : String :=
  match c.format with
  | .json => line (Json.write (.list (rows.map (record headers))))
  | .plain | .rich => String.join ((headers :: rows).map fun row => line ("\t".intercalate row))

end Console

end EndpointBindings
