import EndpointBindings.Yaml.Token
import EndpointBindings.Yaml.Tag

/-!
The nodes of a YAML document. A node is known by its number, and a collection names its items by
their numbers: an alias is the number of its anchor's node, which may be a collection around it.
-/

namespace EndpointBindings.Yaml

abbrev NodeId := Nat

inductive Node where
  | scalar (tag : Tag) (text : String)
  | sequence (tag : Tag) (items : List NodeId)
  | mapping (tag : Tag) (entries : List (NodeId × NodeId))

namespace Node

def tag : Node → Tag
  | scalar tag _ | sequence tag _ | mapping tag _ => tag

def withTag (tag : Tag) : Node → Node
  | scalar _ text => scalar tag text
  | sequence _ items => sequence tag items
  | mapping _ entries => mapping tag entries

/-- A scalar without text. -/
def empty : Node := scalar .null ""

end Node

/-- A document: its nodes by number, and the number of the one that holds the others. -/
structure Graph where
  nodes : Array Node
  root : NodeId

/-- The handles that every document knows. -/
def coreHandles : List (String × String) := [("!", "!"), ("!!", Tag.coreLead)]

/-- What is read so far: the tokens that follow, the nodes, those with anchors by their names, and
the handles of tags. -/
structure Build where
  rest : List Token
  nodes : Array Node
  anchors : List (String × NodeId)
  handles : List (String × String)

abbrev Builder := StateT Build (Except Fault)

namespace Builder

def malformed {α : Type} : Builder α := throw .malformed

def tooDeep {α : Type} : Builder α := throw .tooDeep

def peek : Builder (Option Token) := do return (← get).rest.head?

/-- Passes the next token. -/
def skip : Builder Unit := modify fun b => { b with rest := b.rest.drop 1 }

/-- Whether the next token is one of the given. -/
def atAny (ts : List Token) : Builder Bool := do
  return match ← peek with
    | some t => ts.contains t
    | none => false

/-- Passes the given token, if it comes next. -/
def skipIf (t : Token) : Builder Bool := do
  if ← atAny [t] then
    skip
    return true
  else return false

/-- Passes the given token, which must come next. -/
def expect (t : Token) : Builder Unit := do
  if ← skipIf t then return else malformed

/-- The full name of a tag, unless it is none at all. -/
def tagName (tag : WrittenTag) : Builder String := do
  match tag.handle with
  | none => return tag.suffix
  | some handle =>
    match (← get).handles.lookup handle with
    | some lead => return lead ++ tag.suffix
    | none => malformed

/-- The full name of a tag that is written, if one is. -/
def tagName? : Option WrittenTag → Builder (Option String)
  | none => return none
  | some tag => return some (← tagName tag)

/-- The anchor and the tag in front of a node, in either order. -/
def properties : Builder (Option String × Option WrittenTag) := do
  match ← peek with
  | some (.anchor name) => do
    skip
    match ← peek with
    | some (.tag tag) => do
      skip
      return (some name, some tag)
    | _ => return (some name, none)
  | some (.tag tag) => do
    skip
    match ← peek with
    | some (.anchor name) => do
      skip
      return (some name, some tag)
    | _ => return (none, some tag)
  | _ => return (none, none)

/-- Gives a node the next number. -/
def add (n : Node) : Builder NodeId :=
  modifyGet fun b => (b.nodes.size, { b with nodes := b.nodes.push n })

/-- Takes the next number for a node that is still to be read, and gives it the anchor, which must
be new. -/
def reserve (anchor : Option String) : Builder NodeId := do
  let id ← add .empty
  match anchor with
  | none => return id
  | some name =>
    if (← get).anchors.any (·.1 == name) then malformed
    else do
      modify fun b => { b with anchors := (name, id) :: b.anchors }
      return id

/-- Puts a node under the number that was taken for it. -/
def settle (id : NodeId) (n : Node) : Builder NodeId := do
  modify fun b => { b with nodes := b.nodes.setIfInBounds id n }
  return id

/-- The kind of a collection: its own, unless a tag gives another. -/
def collectionTag (name : Option String) (own : Tag) : Tag :=
  match name with
  | none | some "!" => own
  | some name => Tag.ofName name

/-- The kind of a scalar. -/
def scalarTag (name : Option String) (text : String) (plain : Bool) : Tag :=
  match name with
  | none => if plain then Tag.ofPlain text else .str
  | some "!" => Tag.ofPlain text
  | some name => Tag.ofName name

/-- Passes the separator in front of an item, unless it is the first. -/
def separate (first : Bool) : Builder Unit := if first then return else expect .separator

/-- The value of an entry, read where the sign of a value comes next and empty elsewhere. -/
def entryValue (read : Builder NodeId) : Builder NodeId := do
  if ← skipIf .value then read else add .empty

/-- How deep nodes may nest where few calls are open. -/
def maxDepth : Nat := 480

/-- Where a node may stand: inside brackets, in a block, or as a part of a block mapping, where the
entries of a sequence need no deeper column. -/
inductive Place where
  | flow
  | block
  | mappingPart
  deriving DecidableEq, Repr

mutual

/-- The node that starts at the next token. -/
def node : (fuel depth : Nat) → Place → Builder NodeId
  | 0, _, _ => malformed
  | _, 0, _ => tooDeep
  | fuel + 1, depth + 1, place => do
    match ← peek with
    | some (.alias name) => do
      skip
      match (← get).anchors.lookup name with
      | some id => return id
      | none => malformed
    | _ => do
      let (anchor, tag) ← properties
      let name ← tagName? tag
      let id ← reserve anchor
      match ← peek with
      | some .entry =>
        if place = .mappingPart then
          settle id (.sequence (collectionTag name .seq) (← entries fuel depth))
        else emptyIf id anchor name
      | some (.scalar text plain) => do
        skip
        settle id (.scalar (scalarTag name text plain) text)
      | some .flowSequenceStart => do
        skip
        settle id (.sequence (collectionTag name .seq) (← flowItems fuel depth true))
      | some .flowMappingStart => do
        skip
        settle id (.mapping (collectionTag name .map) (← flowEntries fuel depth true))
      | some .sequenceStart =>
        if place = .flow then emptyIf id anchor name
        else do
          skip
          let items ← blockItems fuel depth
          expect .blockEnd
          settle id (.sequence (collectionTag name .seq) items)
      | some .mappingStart =>
        if place = .flow then emptyIf id anchor name
        else do
          skip
          let found ← blockEntries fuel depth
          expect .blockEnd
          settle id (.mapping (collectionTag name .map) found)
      | _ => emptyIf id anchor name

/-- A node without content, which needs an anchor or a tag. -/
def emptyIf (id : NodeId) (anchor name : Option String) : Builder NodeId :=
  if anchor.isSome || name.isSome then settle id (.scalar (scalarTag name "" true) "")
  else malformed

/-- The node at the next token, or an empty one if one of the given tokens comes instead. -/
def nodeOrEmpty : (fuel depth : Nat) → Place → List Token → Builder NodeId
  | 0, _, _, _ => malformed
  | fuel + 1, depth, place, ends => do
    if ← atAny ends then add .empty else node fuel depth place

/-- The items of a sequence in a block of its own. -/
def blockItems : (fuel depth : Nat) → Builder (List NodeId)
  | 0, _ => malformed
  | fuel + 1, depth => do
    if ← skipIf .entry then
      let item ← nodeOrEmpty fuel depth .block [.entry, .blockEnd]
      return item :: (← blockItems fuel depth)
    else return []

/-- The items of a sequence at the column of the mapping around it. -/
def entries : (fuel depth : Nat) → Builder (List NodeId)
  | 0, _ => malformed
  | fuel + 1, depth => do
    if ← skipIf .entry then
      let item ← nodeOrEmpty fuel depth .block [.entry, .key, .value, .blockEnd]
      return item :: (← entries fuel depth)
    else return []

/-- The entries of a mapping in a block. -/
def blockEntries : (fuel depth : Nat) → Builder (List (NodeId × NodeId))
  | 0, _ => malformed
  | fuel + 1, depth => do
    if ← skipIf .key then
      let key ← nodeOrEmpty fuel depth .mappingPart [.key, .value, .blockEnd]
      let value ← entryValue (nodeOrEmpty fuel depth .mappingPart [.key, .value, .blockEnd])
      return (key, value) :: (← blockEntries fuel depth)
    else return []

/-- The items of a sequence in brackets; a key makes a mapping of one entry. -/
def flowItems : (fuel depth : Nat) → (first : Bool) → Builder (List NodeId)
  | 0, _, _ => malformed
  | fuel + 1, depth, first => do
    if ← skipIf .flowSequenceEnd then return []
    else
      separate first
      if ← skipIf .key then
        match depth with
        | 0 => tooDeep
        | inner + 1 =>
          let key ← nodeOrEmpty fuel inner .flow [.value, .separator, .flowSequenceEnd]
          let value ← entryValue (nodeOrEmpty fuel inner .flow [.separator, .flowSequenceEnd])
          let pair ← add (.mapping .map [(key, value)])
          return pair :: (← flowItems fuel depth false)
      else if ← skipIf .flowSequenceEnd then return []
      else
        let item ← node fuel depth .flow
        return item :: (← flowItems fuel depth false)

/-- The entries of a mapping in brackets; a node alone is a key without a value. -/
def flowEntries : (fuel depth : Nat) → (first : Bool) → Builder (List (NodeId × NodeId))
  | 0, _, _ => malformed
  | fuel + 1, depth, first => do
    if ← skipIf .flowMappingEnd then return []
    else
      separate first
      if ← skipIf .key then
        let key ← nodeOrEmpty fuel depth .flow [.value, .separator, .flowMappingEnd]
        let value ← entryValue (nodeOrEmpty fuel depth .flow [.separator, .flowMappingEnd])
        return (key, value) :: (← flowEntries fuel depth false)
      else if ← skipIf .flowMappingEnd then return []
      else
        let key ← node fuel depth .flow
        let value ← add .empty
        return (key, value) :: (← flowEntries fuel depth false)

end

/-- Adds the handle of a tag, which must be new. -/
def addHandle (declared : List (String × String)) (handle lead : String) :
    Builder (List (String × String)) :=
  if declared.any (·.1 == handle) then malformed else pure ((handle, lead) :: declared)

/-- The directives in front of a document; of the version there may be one. -/
def directives : Nat → Bool → List (String × String) → Builder (List (String × String))
  | 0, _, declared => pure declared
  | fuel + 1, versionSeen, declared => do
    match ← peek with
    | some (.directive d) => do
      skip
      match d with
      | .version major =>
        if versionSeen || major != 1 then malformed else directives fuel true declared
      | .tag handle lead => do directives fuel versionSeen (← addHandle declared handle lead)
      | .other => directives fuel versionSeen declared
    | _ => return declared

/-- Passes the ends of documents. -/
def skipEnds : Nat → Builder Unit
  | 0 => pure ()
  | fuel + 1 => do if ← skipIf .documentEnd then skipEnds fuel

/-- The root of a document whose start is marked; it may be empty. -/
def markedRoot (fuel depth : Nat) : Builder NodeId := do
  match ← peek with
  | none | some (.directive _) | some .documentStart | some .documentEnd => add .empty
  | _ => node fuel depth .block

/-- Passes what may follow the root of the one document. -/
def close (fuel : Nat) (root : NodeId) : Builder (Option NodeId) := do
  skipEnds fuel
  if (← peek).isSome then malformed else return some root

/-- The number of the document's root, nothing if the text has no document. There may be one
only. -/
def document (depth : Nat) : Builder (Option NodeId) := do
  let fuel := 3 * (← get).rest.length + 3
  match ← peek with
  | none => return none
  | some (.directive _) | some .documentStart => do
    let declared ← directives fuel false []
    modify fun b => { b with handles := declared ++ coreHandles }
    expect .documentStart
    close fuel (← markedRoot fuel depth)
  | _ => close fuel (← node fuel depth .block)

end Builder

/-- The nodes of the one document that the tokens make, which nest to a depth at most. -/
def Graph.ofTokens (depth : Nat) (ts : List Token) : Except Fault (Option Graph) := do
  let (root, b) ← (Builder.document depth).run ⟨ts, #[], [], coreHandles⟩
  return root.map fun id => ⟨b.nodes, id⟩

end EndpointBindings.Yaml
