import EndpointBindings.Config
import EndpointBindings.Config.Reading
import EndpointBindings.Defect

/-!
Settings by layers. A layer gives values to some of the settings, not yet checked; a value in an
upper layer hides the one below it, which is then never looked at. `resolve` checks what is left.
-/

namespace EndpointBindings

inductive Setting where
  | specDir
  | outDir
  | included
  | excluded
  | workers
  | strict
  deriving DecidableEq, Repr

/-- The key of a setting in a file. -/
def Setting.key : Setting → String
  | specDir => "spec_dir"
  | outDir => "out_dir"
  | included => "include"
  | excluded => "exclude"
  | workers => "workers"
  | strict => "strict"

abbrev Layer := Setting → Option Value

namespace Layer

def empty : Layer := fun _ => none

/-- One layer on top of another. -/
def above (upper lower : Layer) : Layer := fun s => (upper s).or (lower s)

/-- The settings in the entries of a file; other keys mean nothing. -/
def ofEntries (entries : List (Value × Value)) : Layer := fun s => Value.field? s.key entries

/-- A layer that gives a value to one setting. -/
def single (s : Setting) (v : Value) : Layer := fun t => if t = s then some v else none

/-- The value of a setting: the one below the layer unless the layer gives another. -/
def read {α : Type} (l : Layer) (s : Setting) (reader : Value → Checked α) (below : α) :
    Checked α :=
  match l s with
  | none => .ok below
  | some v => (reader v).under s.key

/-- Settings with a layer on top. All values at fault are told, whichever come first. -/
def resolve (below : CompilerConfig) (l : Layer) : Checked CompilerConfig :=
  let specDir := l.read .specDir Setting.readDirectory below.specDir
  let outDir := l.read .outDir Setting.readDirectory below.outDir
  let included := l.read .included Setting.readPatterns below.included
  let excluded := l.read .excluded Setting.readPatterns below.excluded
  let workers := l.read .workers Setting.readCount below.workers
  let strict := l.read .strict Setting.readSwitch below.strict
  match specDir, outDir, included, excluded, workers, strict with
  | .ok a, .ok b, .ok c, .ok d, .ok e, .ok f => .ok ⟨a, b, c, d, e, f⟩
  | _, _, _, _, _, _ =>
    .error (specDir.places ++ outDir.places ++ included.places ++ excluded.places ++
      workers.places ++ strict.places)

/-- The items of a value that goes into a list: a text by its characters, a mapping by its keys. -/
def items : Value → Except Defect (List Value)
  | .list vs | .tuple vs | .set vs => .ok vs
  | .text s => .ok (s.toList.map fun c => .text c.toString)
  | .mapping entries => .ok (entries.map (·.1))
  | .bytes octets => .ok (octets.map fun b => .int b.toNat)
  | v => if v.isBlank then .ok [] else .error .notSequence

/-- Adds patterns to those that are skipped already, in the layer or below it. -/
def exclude (l : Layer) (below : CompilerConfig) : List String → Except Defect Layer
  | [] => .ok l
  | patterns => do
    let known ← match l .excluded with
      | none => pure (below.excluded.map Value.text)
      | some v => items v
    return (single .excluded (.list (known ++ patterns.map Value.text))).above l

/-- A value that the upper layer gives hides the lower layer's. -/
theorem above_eq_some {upper lower : Layer} {s : Setting} {v : Value} (h : upper s = some v) :
    upper.above lower s = some v := by
  simp [above, h]

theorem above_eq_of_none {upper lower : Layer} {s : Setting} (h : upper s = none) :
    upper.above lower s = lower s := by
  simp [above, h]

end Layer

end EndpointBindings
