import EndpointBindings.Yaml.Node

/-!
Merge keys. A mapping takes over the entries of the mappings that its merge keys name: they stand in
front of its own entries, so that its own win. An equals sign as a key is a text.
-/

namespace EndpointBindings.Yaml

abbrev Entries := List (NodeId × NodeId)

namespace Graph

/-- The node of a number. -/
def node (nodes : Array Node) (id : NodeId) : Node := nodes.getD id .empty

def tagOf (nodes : Array Node) (id : NodeId) : Tag := (node nodes id).tag

/-- The entries of a mapping. -/
def entries (nodes : Array Node) (id : NodeId) : Entries :=
  match node nodes id with
  | .mapping _ es => es
  | _ => []

def setEntries (es : Entries) : Node → Node
  | .mapping tag _ => .mapping tag es
  | n => n

/-- The entries of all mappings whose keys are merge keys. -/
def mergeEntries (nodes : Array Node) : Entries :=
  nodes.toList.flatMap fun
    | .mapping _ es => es.filter fun e => tagOf nodes e.1 = .merge
    | _ => []

end Graph

/-- Works on nodes, which it may change. -/
abbrev Merger := StateT (Array Node) (Except Fault)

namespace Merger

open Yaml.Graph

def entriesOf (id : NodeId) : Merger Entries := do return entries (← get) id

def putEntries (id : NodeId) (es : Entries) : Merger Unit :=
  modify fun nodes => nodes.modify id (setEntries es)

/-- The value of the first merge key, and the entries without it. -/
def takeFirst (nodes : Array Node) : Entries → Option (NodeId × Entries)
  | [] => none
  | e :: rest =>
    if tagOf nodes e.1 = .merge then some (e.2, rest)
    else (takeFirst nodes rest).map fun (value, more) => (value, e :: more)

/-- Makes a text of a key that is an equals sign. -/
def settleKey (id : NodeId) : Merger Unit :=
  modify fun nodes =>
    if tagOf nodes id = .value then nodes.modify id (.withTag .str) else nodes

/-- Puts what is taken over in front of a mapping's own entries, and answers all of them. -/
def complete (id : NodeId) (taken : Entries) : Merger Entries := do
  let own ← entriesOf id
  own.forM fun e => settleKey e.1
  if taken.isEmpty then return own
  else do
    putEntries id (taken ++ own)
    return taken ++ own

/-- What a merge key takes over: the entries of a mapping, or of several, the last ones first.
`flat` makes the entries of one of them complete. -/
def takeOver (flat : NodeId → Merger Entries) (value : NodeId) : Merger Entries := do
  match node (← get) value with
  | .mapping .. => flat value
  | .sequence _ items => do
    let found ← items.mapM fun item => do
      match node (← get) item with
      | .mapping .. => flat item
      | _ => throw .malformed
    return found.reverse.flatten
  | .scalar .. => throw .malformed

/-- Takes the merge keys out of a mapping one by one, and answers what they take over. A mapping may
be merged into itself, so that every key is out before what it names is looked at. -/
def takeAll : (fuel : Nat) → NodeId → Merger Entries
  | 0, _ => return []
  | fuel + 1, id => do
    match takeFirst (← get) (← entriesOf id) with
    | none => return []
    | some (value, rest) => do
      putEntries id rest
      let first ← takeOver (fun other => do complete other (← takeAll fuel other)) value
      return first ++ (← takeAll fuel id)

/-- The entries of a mapping with those that it takes over. -/
def flatten (id : NodeId) : Merger Entries := do
  if (takeFirst (← get) (← entriesOf id)).isNone then complete id []
  else complete id (← takeAll ((mergeEntries (← get)).length + 1) id)

end Merger

end EndpointBindings.Yaml
