import EndpointBindings.Yaml.Merge
import EndpointBindings.Yaml.Scalar

/-!
What the nodes of a document stand for. A scalar has its value at once; a collection is first made
empty, and filled when everything that was made before it is full, so that it can be inside itself.
The first fault that is met on this way counts: of two faults the one nearer to the root, and on one
level the one in front.
-/

namespace EndpointBindings.Yaml

/-- A value, or a collection of objects by their numbers. An object that is made of a node has the
node's number. -/
inductive Object where
  | plain (v : Value)
  | list (items : List Nat)
  | pair (first second : Nat)
  | mapping (entries : List (Nat × Nat))
  | set (keys : List Nat)

/-- The text of a node; a mapping has the text that its equals sign gives it. -/
def textOf (nodes : Array Node) : (fuel : Nat) → NodeId → Option String
  | 0, _ => none
  | fuel + 1, id =>
    match Graph.node nodes id with
    | .scalar _ text => some text
    | .sequence .. => none
    | .mapping _ es =>
      match es.find? fun e => Graph.tagOf nodes e.1 = .value with
      | some e => textOf nodes fuel e.2
      | none => none

/-- The text of a node, which cannot have its own text inside. -/
def Graph.text? (nodes : Array Node) (id : NodeId) : Option String :=
  textOf nodes (nodes.size + 1) id

/-- What is made so far: the nodes, the objects, and the collections that are still to be filled,
last first. -/
structure Making where
  nodes : Array Node
  objects : Array (Option Object)
  waiting : List NodeId

abbrev Maker := StateT Making (Except Fault)

namespace Making

def object? (m : Making) (id : Nat) : Option Object := (m.objects[id]?).join

/-- What is not a number is no key twice, but its word stands for the same one wherever it is. -/
def isNanWord (m : Making) (id : Nat) : Bool :=
  match Graph.text? m.nodes id with
  | some text => Yaml.isNanWord text.toList
  | none => false

/-- Whether two objects are one key. -/
def sameKey (m : Making) (a b : Nat) : Bool :=
  a == b ||
    (match m.object? a, m.object? b with
    | some (.plain (.float .nan)), some (.plain (.float .nan)) => m.isNanWord a && m.isNanWord b
    | some (.plain v), some (.plain w) => v.sameKey w
    | _, _ => false)

/-- Entries with one more: a known key keeps its place and takes the new value. -/
def insertKey (m : Making) (key value : Nat) : List (Nat × Nat) → List (Nat × Nat)
  | [] => [(key, value)]
  | (k, v) :: rest =>
    if m.sameKey k key then (k, value) :: rest else (k, v) :: m.insertKey key value rest

end Making

namespace Maker

def malformed {α : Type} : Maker α := throw .malformed

def put (id : Nat) (o : Object) : Maker Unit :=
  modify fun m => { m with objects := m.objects.setIfInBounds id (some o) }

/-- Gives an object that no node stands for the next number. -/
def add (o : Object) : Maker Nat :=
  modifyGet fun m => (m.objects.size, { m with objects := m.objects.push (some o) })

/-- Makes an empty collection, which is to be filled. -/
def start (id : NodeId) (o : Object) : Maker Unit := do
  put id o
  modify fun m => { m with waiting := id :: m.waiting }

/-- The value of a node with the tag of a scalar. -/
def scalarOf (nodes : Array Node) (id : NodeId) (tag : Tag) : Except Fault Value :=
  match Graph.text? nodes id, Graph.node nodes id with
  | none, _ => .error .malformed
  | some _, .mapping .timestamp _ => .error (.defect .timeWithoutText)
  | some text, _ => scalarValue tag text

/-- Makes the object of a node, unless it is made already. -/
def make (id : NodeId) : Maker Unit := do
  if ((← get).object? id).isSome then return
  else
    match Graph.tagOf (← get).nodes id with
    | .seq | .omap | .pairs => start id (.list [])
    | .map => start id (.mapping [])
    | .set => start id (.set [])
    | tag => put id (.plain (← scalarOf (← get).nodes id tag))

/-- Makes a key, which cannot be a collection. -/
def makeKey (id : NodeId) : Maker Unit := do
  make id
  match (← get).object? id with
  | some (.plain _) => return
  | _ => malformed

/-- Makes the entries of a mapping, with those that it takes over. -/
def makeEntries (id : NodeId) : Maker (List (Nat × Nat)) := do
  let (es, nodes) ← (Merger.flatten id).run (← get).nodes
  modify fun m => { m with nodes }
  es.foldlM (fun found e => do
    makeKey e.1
    make e.2
    return (← get).insertKey e.1 e.2 found) []

/-- Makes a pair of a mapping with one entry. -/
def makePair (id : NodeId) : Maker Nat := do
  match Graph.node (← get).nodes id with
  | .mapping _ [(k, v)] => do
    make k
    make v
    add (.pair k v)
  | _ => malformed

/-- Fills a collection, whose node must be of its kind. -/
def fill (id : NodeId) : Maker Unit := do
  match Graph.node (← get).nodes id with
  | .sequence .seq items => do
    items.forM make
    put id (.list items)
  | .sequence .omap items | .sequence .pairs items => do put id (.list (← items.mapM makePair))
  | .mapping .map _ => do put id (.mapping (← makeEntries id))
  | .mapping .set _ => do put id (.set ((← makeEntries id).map (·.1)))
  | _ => malformed

/-- Fills collections level by level. -/
def fillAll : (levels : Nat) → Maker Unit
  | 0 => return
  | levels + 1 => do
    let level ← modifyGet fun m => (m.waiting.reverse, { m with waiting := [] })
    if level.isEmpty then return
    else do
      level.forM fill
      fillAll levels

end Maker

/-- All objects of a document by their numbers. -/
def Graph.objects (g : Graph) : Except Fault (Array (Option Object)) := do
  let all : Maker Unit := do
    Maker.make g.root
    Maker.fillAll (g.nodes.size + 1)
  let (_, m) ← all.run ⟨g.nodes, Array.replicate g.nodes.size none, []⟩
  return m.objects

end EndpointBindings.Yaml
