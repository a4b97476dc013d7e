import EndpointBindings.Program

/-!
The places that a run looks at, so that a caller need not hand over more files than those.
-/

namespace EndpointBindings.Program

open CommandLine

/-- The files of settings, which a run reads first. -/
def settingsPaths (w : World) : List FilePath :=
  w.globalConfigPath.toOption.toList ++ [w.projectConfigPath]

/-- The directory of logs. -/
def logPaths (w : World) : List FilePath := ((Run.logPath w).toOption.map FilePath.parent).toList

/-- The directories that settings name, as far as settings can be had. -/
def settledPaths (w : World) (layer : Layer) : List FilePath :=
  match Config.resolve w layer [] with
  | .ok config => (config.specDir.toList ++ config.outDir.toList).map FilePath.ofString
  | .error _ => []

/-- The places at which a command finds documents or writes. -/
def commandPaths (w : World) : Command → List FilePath
  | .compile specDir outDir strict workers _ =>
    settledPaths w (Run.commandLayer specDir outDir strict workers)
  | .show specFile _ => [.ofString specFile]
  | .inspect _ specDir _ => settledPaths w (Run.commandLayer specDir none none none)

/-- The places that a run looks at besides the settings, which the world must hold already. -/
def paths (w : World) (words : List String) : List FilePath :=
  match readRoot words with
  | .error _ => []
  | .ok (_, topic, rest) =>
    match Command.read topic rest with
    | .ok command => logPaths w ++ commandPaths w command
    | .error _ => logPaths w

end EndpointBindings.Program
