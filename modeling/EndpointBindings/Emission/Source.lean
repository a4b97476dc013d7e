/-!
Source text as lines.
-/

namespace EndpointBindings.Emission

/-- Lines with line ends between them. -/
def joinLines (lines : List String) : String := "\n".intercalate lines

/-- Lines, each with a line end. -/
def endLines (lines : List String) : String := String.join (lines.map (· ++ "\n"))

/-- The version that the emitted files name. -/
def version : String := "0.1.0"

/-- The program that the emitted files name. -/
def generator : String := "specbind " ++ version

end EndpointBindings.Emission
