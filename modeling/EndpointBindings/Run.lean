import EndpointBindings.FileSystem.Writing
import EndpointBindings.RunError

/-!
What a run of the program comes to: the remarks it makes on the way, its result, an exit code, and
the files as it leaves them. None of this depends on how loud the console is.
-/

namespace EndpointBindings

structure Remark where
  kind : Console.Diagnostic
  message : String
  deriving DecidableEq, Repr

/-- What goes to the output. -/
inductive Result where
  | none
  | response (v : Value)
  | table (headers : List String) (rows : List (List String))
  /-- Text that is written as it stands. -/
  | source (text : String)

structure Run where
  remarks : List Remark
  result : Result
  exitCode : Nat
  files : FileSystem
  /-- The defect that ended the run, if one did. -/
  crash : Option Defect

namespace Run

def done (files : FileSystem) (remarks : List Remark) (result : Result) : Run :=
  ⟨remarks, result, 0, files, none⟩

/-- A run that an error ends, in a world whose files are as they stand then. -/
def failed (w : World) (remarks : List Remark) (e : RunError) : Run :=
  match e with
  | .defect d => ⟨remarks, .none, 1, w.files, some d⟩
  | e =>
    match e.report? with
    | some r => ⟨remarks ++ [⟨.error, r.message⟩], .none, r.exitCode, w.files, none⟩
    | none => ⟨remarks, .none, 1, w.files, none⟩

/-- What a run writes to the output. -/
def output (c : Console) (r : Run) : String :=
  match r.result with
  | .none => ""
  | .response v => c.response v
  | .table headers rows => c.table headers rows
  | .source text => text

/-- What a run writes to the error stream. -/
def diagnostics (c : Console) (r : Run) : String :=
  String.join (r.remarks.map fun m => c.diagnostic m.kind m.message)

end Run

end EndpointBindings
