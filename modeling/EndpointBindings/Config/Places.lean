import EndpointBindings.World

/-!
Where the program keeps its own files. On systems with base directories for settings and data they
are in those; elsewhere they are in one hidden directory of the user.
-/

namespace EndpointBindings.World

/-- The name under which the program keeps its files. -/
def programName : String := "specbind"

def hasBaseDirectories (w : World) : Bool := w.system == "Linux" || w.system.endsWith "BSD"

/-- The home directory. Slashes at its end do not count, and an empty name is the root. A name that
starts with a tilde is none. -/
def home (w : World) : Except Defect FilePath :=
  let name := (w.env.lookup "HOME").getD w.accountHome
  match name.toList.reverse.dropWhile (· == '/') |>.reverse with
  | [] => .ok (.ofString "/")
  | '~' :: _ => .error .noHome
  | cs => .ok (.ofString (String.ofList cs))

/-- The base directory that a variable names, or else one inside the home directory. -/
def baseDirectory (w : World) (varName : String) (inHome : List String) : Except Defect FilePath :=
  match w.setVariable? varName with
  | some name => .ok (.ofString name)
  | none => do return (← w.home).join ⟨"", inHome⟩

/-- The directory of the program inside a base directory. -/
def ownDirectory (w : World) (varName : String) (inHome : List String) :
    Except Defect FilePath := do
  if w.hasBaseDirectories then return (← w.baseDirectory varName inHome).child programName
  else return (← w.home).child ("." ++ programName)

def configDirectory (w : World) : Except Defect FilePath :=
  w.ownDirectory "XDG_CONFIG_HOME" [".config"]

def dataDirectory (w : World) : Except Defect FilePath :=
  w.ownDirectory "XDG_DATA_HOME" [".local", "share"]

/-- The file of the settings that hold for all runs of the user. -/
def globalConfigPath (w : World) : Except Defect FilePath := do
  return (← w.configDirectory).child "config.json"

/-- The file of the settings for the working directory. -/
def projectConfigPath (w : World) : FilePath := w.cwdPath.child "specbind.json"

end EndpointBindings.World
