import EndpointBindings.Console

/-!
The settings of a run, and those that hold for all runs of a user.
-/

namespace EndpointBindings

structure CompilerConfig where
  /-- The directory of the documents. -/
  specDir : Option String
  /-- Where the bindings are written. -/
  outDir : Option String
  /-- Patterns for the files that are documents, and for those of them to skip. -/
  included : List String
  excluded : List String
  /-- How many files may be read at a time. -/
  workers : Nat
  /-- Whether one bad file fails the whole run. -/
  strict : Bool
  deriving DecidableEq, Repr

/-- The patterns for documents of the known formats. -/
def defaultIncluded : List String := ["**/*.json", "**/*.yaml", "**/*.yml"]

def CompilerConfig.default : CompilerConfig := ⟨none, none, defaultIncluded, [], 4, false⟩

structure GlobalConfig where
  compiler : CompilerConfig
  /-- The format of results where no option asks for another. -/
  format : Console.Choice
  deriving DecidableEq, Repr

def GlobalConfig.default : GlobalConfig := ⟨.default, .automatic⟩

end EndpointBindings
