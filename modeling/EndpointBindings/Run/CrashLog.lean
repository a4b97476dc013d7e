import EndpointBindings.Run

/-!
The log of a run that a defect ended. Where it cannot be written, that is a defect as well, and
nobody is told where the log is.
-/

namespace EndpointBindings.Run

/-- Where the log of a run is written. -/
def logPath (w : World) : Except Defect FilePath := do
  return ((← w.dataDirectory).child "logs").child ("crash-" ++ w.time ++ ".log")

def logText (d : Defect) : List UInt8 := Text.Utf8.encode (d.message ++ "\n").toList

/-- A run with the log of its defect, if one ended it, or the defect that is left to the caller. -/
def log (w : World) (r : Run) : Run × Option Defect :=
  match r.crash with
  | none => (r, none)
  | some d =>
    match logPath w with
    | .error e => (r, some e)
    | .ok path =>
      match r.files.writeInPlace w.cwd path (logText d) with
      | (files, .error e) => ({ r with files }, some e)
      | (files, .ok ()) =>
        let told : Remark := ⟨.error, "Unexpected error. Debug log: " ++ path.text⟩
        ({ r with files, remarks := r.remarks ++ [told] }, none)

end EndpointBindings.Run
