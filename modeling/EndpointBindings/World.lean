import EndpointBindings.Console
import EndpointBindings.FileSystem

/-!
What a run of the program starts from: the variables of the environment, the system it runs on, the
files, and the directory in which it works.
-/

namespace EndpointBindings

structure World where
  env : Environment
  /-- The name of the operating system. -/
  system : String
  /-- The home directory of the account, where the environment names none. -/
  accountHome : String
  files : FileSystem
  cwd : Location
  /-- The time as the names of logs tell it. -/
  time : String
  /-- Whether the output is a terminal. -/
  terminal : Bool

namespace World

/-- The working directory as a path. -/
def cwdPath (w : World) : FilePath := ⟨"/", w.cwd⟩

/-- A variable that is set to something. -/
def setVariable? (w : World) (name : String) : Option String :=
  (w.env.lookup name).filter (· != "")

def octets? (w : World) (p : FilePath) : Except Defect (Option (List UInt8)) :=
  w.files.octets? w.cwd p

end World

end EndpointBindings
