import EndpointBindings.Assembly
import EndpointBindings.Config.Resolution

/-!
Why a run of the program ends without its result. All but defects are reported with an exit code of
their own.
-/

namespace EndpointBindings

inductive RunError where
  | noSpecDirectory
  | noOutDirectory
  /-- The verb that is asked for is none. -/
  | notVerb (token : String)
  | unsupportedVerb (endpoint : String) (verb : Verb)
  | config (fault : ConfigFault)
  | spec (e : SpecError)
  /-- Files failed where none may. -/
  | failedFiles (errors : List FileError)
  | defect (d : Defect)

namespace RunError

def ofConfig : Config.Failure → RunError
  | .config fault => .config fault
  | .defect d => .defect d

def ofDocument : Failure → RunError
  | .spec e => .spec e
  | .defect d => .defect d

def failedReport (errors : List FileError) : Report :=
  .of .compile (failureSummary (errors.map fun e => (e.file, e.error.message)))

/-- How an error is reported, unless it is a defect. -/
def report? : RunError → Option Report
  | noSpecDirectory => some (.of .usage
      ("No spec directory given. Pass SPEC_DIR, set SPECBIND_SPEC_DIR, " ++
        "or add 'spec_dir' to specbind.json."))
  | noOutDirectory => some (.of .usage
      ("No output directory given. Pass --out, set SPECBIND_OUT_DIR, " ++
        "or add 'out_dir' to specbind.json."))
  | notVerb token =>
    some ⟨.unknownVerb, (SpecError.unknownVerb token).message, ErrorKind.usage.exitCode⟩
  | unsupportedVerb endpoint verb => some (.of .usage
      ("Endpoint " ++ Text.Quoted.quote endpoint ++ " does not support " ++ verb.token))
  | config fault => some fault.report
  | spec e => some e.report
  | failedFiles errors => some (failedReport errors)
  | defect _ => none

end RunError

end EndpointBindings
