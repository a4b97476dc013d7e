import EndpointBindings.Yaml.Object
import EndpointBindings.Yaml.Token.Reader

/-!
The value of a YAML document. A collection that leads back to itself is a loop, labelled with its
number.
-/

namespace EndpointBindings.Yaml

/-- The keys of a set, texts and integers in order. -/
def sortKeys (keys : List Value) : List Value :=
  keys.mergeSort fun a b =>
    match a, b with
    | .text s, .text t => decide (s ≤ t)
    | .int i, .int j => decide (i ≤ j)
    | _, _ => true

/-- A value, with the numbers of the collections around it to which it leads back. -/
structure Strand where
  value : Value
  back : List Nat

/-- Collects values, and keeps by their numbers those that lead nowhere back. -/
abbrev Collector := StateM (Array (Option Value))

namespace Strand

/-- The strand of a collection from its items. -/
def close (id : Nat) (v : Value) (items : List Strand) : Collector Strand := do
  let back := (items.flatMap (·.back)).eraseDups
  if back.isEmpty then
    modify fun known => known.setIfInBounds id (some v)
    return ⟨v, []⟩
  else return ⟨.loop id v, back.filter (· != id)⟩

/-- The strand of an object inside the given collections. -/
def ofObject (objects : Array (Option Object)) :
    (fuel : Nat) → (around : List Nat) → Nat → Collector Strand
  | 0, _, id => return ⟨.again id, [id]⟩
  | fuel + 1, around, id => do
    if around.contains id then return ⟨.again id, [id]⟩
    else
      match ((← get)[id]?).join with
      | some v => return ⟨v, []⟩
      | none =>
        let inner := ofObject objects fuel (id :: around)
        match (objects[id]?).join with
        | none => return ⟨.null, []⟩
        | some (.plain v) => return ⟨v, []⟩
        | some (.list items) => do
          let found ← items.mapM inner
          close id (.list (found.map (·.value))) found
        | some (.pair first second) => do
          let found ← [first, second].mapM inner
          close id (.tuple (found.map (·.value))) found
        | some (.mapping entries) => do
          let keys ← entries.mapM fun e => inner e.1
          let values ← entries.mapM fun e => inner e.2
          close id (.mapping ((keys.map (·.value)).zip (values.map (·.value)))) values
        | some (.set keys) => do
          let found ← keys.mapM inner
          close id (.set (sortKeys (found.map (·.value)))) found

end Strand

/-- The value of a document. -/
def Graph.value (g : Graph) : Except Fault Value := do
  let objects ← g.objects
  let known := Array.replicate objects.size none
  return ((Strand.ofObject objects (objects.size + 1) [] g.root).run known).1.value

/-- The value of a YAML text in which nodes nest to a depth at most, null if it has no document. -/
def readWithin (depth : Nat) (text : List Char) : Except Fault Value := do
  match ← Graph.ofTokens depth (← tokens text) with
  | none => return .null
  | some g => g.value

end EndpointBindings.Yaml
