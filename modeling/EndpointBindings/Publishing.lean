import EndpointBindings.Emission.Module
import EndpointBindings.FileSystem.Writing

/-!
Writing the package of a registry into a directory. Files of other names stay as they are.
-/

namespace EndpointBindings

/-- Makes the directory and writes every file of the package, up to the first that fails. -/
def publish (fault : String → FileSystem.Step → Option Defect) (r : Registry) (cwd : Location)
    (out : FilePath) (fs : FileSystem) : FileSystem × Except Defect (List String) :=
  match fs.ensureDirectory cwd out with
  | (fs, .error d) => (fs, .error d)
  | (fs, .ok ()) =>
    match Emission.package r with
    | .error d => (fs, .error d)
    | .ok files =>
      match FileSystem.writeAll fault cwd out files fs with
      | (fs, .error d) => (fs, .error d)
      | (fs, .ok ()) => (fs, .ok (files.map fun (name, _) => (out.child name).text))

end EndpointBindings
