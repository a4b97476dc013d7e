import EndpointBindings.Compilation
import EndpointBindings.Proofs.ExceptResults

/-!
How much room a document needs. Where it is read the calls that are open leave room for some depth
of nesting. A document that does not run out of room is read in the same way wherever there is at
least as much.
-/

namespace EndpointBindings

namespace Json

/-- There was no room for a value. -/
def IsTooDeep (fault : Fault) : Prop := ∃ nesting, fault = .tooDeep nesting

section Readers

variable {fuel depth more : Nat}

/-- The readers agree at two depths, unless they run out of the first. -/
structure ReadsAlike (fuel depth more : Nat) : Prop where
  value : ∀ cs, AgreesUnless IsTooDeep (readValue fuel depth cs) (readValue fuel more cs)
  items : ∀ cs, AgreesUnless IsTooDeep (readItems fuel depth cs) (readItems fuel more cs)
  members : ∀ cs, AgreesUnless IsTooDeep (readMembers fuel depth cs) (readMembers fuel more cs)

theorem agrees_readValue (ih : ∀ {depth more}, depth ≤ more → ReadsAlike fuel depth more)
    (h : depth ≤ more) (cs : List Char) :
    AgreesUnless IsTooDeep (readValue (fuel + 1) depth cs) (readValue (fuel + 1) more cs) := by
  unfold readValue
  split
  · exact .refl _
  · cases depth with
    | zero => exact .of_limit ⟨_, rfl⟩ _
    | succ depth =>
        obtain ⟨more, rfl⟩ : ∃ m, more = m + 1 := ⟨more - 1, by omega⟩
        dsimp only
        split
        · exact .refl _
        · exact ((ih (Nat.le_of_succ_le_succ h)).items _).bind fun _ => .refl _
  · cases depth with
    | zero => exact .of_limit ⟨_, rfl⟩ _
    | succ depth =>
        obtain ⟨more, rfl⟩ : ∃ m, more = m + 1 := ⟨more - 1, by omega⟩
        dsimp only
        split
        · exact .refl _
        · exact ((ih (Nat.le_of_succ_le_succ h)).members _).bind fun _ => .refl _
  · exact .refl _

theorem agrees_readItems (ih : ReadsAlike fuel depth more) (cs : List Char) :
    AgreesUnless IsTooDeep (readItems (fuel + 1) depth cs) (readItems (fuel + 1) more cs) := by
  unfold readItems
  refine (ih.value cs).bind fun found => ?_
  dsimp only
  split
  · exact .refl _
  · exact (ih.items _).bind fun _ => .refl _
  · exact .refl _

theorem agrees_readMembers (ih : ReadsAlike fuel depth more) (cs : List Char) :
    AgreesUnless IsTooDeep (readMembers (fuel + 1) depth cs) (readMembers (fuel + 1) more cs) := by
  unfold readMembers
  split
  · refine .bind (.refl _) fun name => ?_
    dsimp only
    split
    · refine (ih.value _).bind fun found => ?_
      split
      · exact .refl _
      · exact (ih.members _).bind fun _ => .refl _
      · exact .refl _
    · exact .refl _
  · exact .refl _

theorem readsAlike (fuel : Nat) (h : depth ≤ more) : ReadsAlike fuel depth more := by
  induction fuel generalizing depth more with
  | zero =>
      refine ⟨fun cs => ?_, fun cs => ?_, fun cs => ?_⟩
      · simp only [readValue]
        exact .refl _
      · simp only [readItems]
        exact .refl _
      · simp only [readMembers]
        exact .refl _
  | succ fuel ih =>
      exact ⟨agrees_readValue ih h, agrees_readItems (ih h), agrees_readMembers (ih h)⟩

theorem agrees_readWithin (h : depth ≤ more) (cs : List Char) :
    AgreesUnless IsTooDeep (readWithin depth cs) (readWithin more cs) := by
  unfold readWithin
  split
  · exact .refl _
  · exact ((readsAlike _ h).value _).bind fun _ => .refl _

end Readers

end Json

namespace Yaml

namespace Builder

variable {α β : Type} {fuel depth more : Nat}

/-- Two builders agree from every state, unless the first runs out of depth. -/
def Agrees (m m' : Builder α) : Prop :=
  ∀ b, AgreesUnless (· = Fault.tooDeep) (m.run b) (m'.run b)

theorem Agrees.refl (m : Builder α) : Agrees m m := fun _ => .refl _

theorem agrees_tooDeep (m : Builder α) : Agrees tooDeep m := fun _ => .inr ⟨_, rfl, rfl⟩

theorem Agrees.bind {m m' : Builder α} {f f' : α → Builder β} (hm : Agrees m m')
    (hf : ∀ a, Agrees (f a) (f' a)) : Agrees (m >>= f) (m' >>= f') :=
  fun b => (hm b).bind fun found => hf found.1 found.2

theorem Agrees.entryValue {read read' : Builder NodeId} (h : Agrees read read') :
    Agrees (entryValue read) (entryValue read') := by
  unfold Builder.entryValue
  refine .bind (.refl _) fun here => ?_
  split
  · exact h
  · exact .refl _

/-- The builders of nodes agree at two depths. -/
structure BuildsAlike (fuel depth more : Nat) : Prop where
  node : ∀ place, Agrees (node fuel depth place) (node fuel more place)
  nodeOrEmpty : ∀ place ends,
    Agrees (nodeOrEmpty fuel depth place ends) (nodeOrEmpty fuel more place ends)
  blockItems : Agrees (blockItems fuel depth) (blockItems fuel more)
  entries : Agrees (entries fuel depth) (entries fuel more)
  blockEntries : Agrees (blockEntries fuel depth) (blockEntries fuel more)
  flowItems : ∀ first, Agrees (flowItems fuel depth first) (flowItems fuel more first)
  flowEntries : ∀ first, Agrees (flowEntries fuel depth first) (flowEntries fuel more first)

theorem agrees_node (ih : ∀ {depth more}, depth ≤ more → BuildsAlike fuel depth more)
    (h : depth ≤ more) (place : Place) :
    Agrees (node (fuel + 1) depth place) (node (fuel + 1) more place) := by
  cases depth with
  | zero =>
      rw [node.eq_2 _ _ (by simp)]
      exact agrees_tooDeep _
  | succ depth =>
      obtain ⟨more, rfl⟩ : ∃ m, more = m + 1 := ⟨more - 1, by omega⟩
      have hinner := ih (Nat.le_of_succ_le_succ h)
      unfold node
      refine .bind (.refl _) fun next => ?_
      split
      · exact .refl _
      · refine .bind (.refl _) fun properties => .bind (.refl _) fun name => ?_
        refine .bind (.refl _) fun id => .bind (.refl _) fun next => ?_
        split
        · split
          · exact hinner.entries.bind fun items => .refl _
          · exact .refl _
        · exact .refl _
        · exact .bind (.refl _) fun _ => (hinner.flowItems _).bind fun items => .refl _
        · exact .bind (.refl _) fun _ => (hinner.flowEntries _).bind fun found => .refl _
        · split
          · exact .refl _
          · exact .bind (.refl _) fun _ => hinner.blockItems.bind fun items => .refl _
        · split
          · exact .refl _
          · exact .bind (.refl _) fun _ => hinner.blockEntries.bind fun found => .refl _
        · exact .refl _

theorem agrees_nodeOrEmpty (ih : BuildsAlike fuel depth more) (place : Place)
    (ends : List Token) :
    Agrees (nodeOrEmpty (fuel + 1) depth place ends) (nodeOrEmpty (fuel + 1) more place ends) := by
  unfold nodeOrEmpty
  refine .bind (.refl _) fun here => ?_
  split
  · exact .refl _
  · exact ih.node place

theorem agrees_blockItems (ih : BuildsAlike fuel depth more) :
    Agrees (blockItems (fuel + 1) depth) (blockItems (fuel + 1) more) := by
  unfold blockItems
  refine .bind (.refl _) fun here => ?_
  split
  · exact (ih.nodeOrEmpty _ _).bind fun item => ih.blockItems.bind fun items => .refl _
  · exact .refl _

theorem agrees_entries (ih : BuildsAlike fuel depth more) :
    Agrees (entries (fuel + 1) depth) (entries (fuel + 1) more) := by
  unfold entries
  refine .bind (.refl _) fun here => ?_
  split
  · exact (ih.nodeOrEmpty _ _).bind fun item => ih.entries.bind fun items => .refl _
  · exact .refl _

theorem agrees_blockEntries (ih : BuildsAlike fuel depth more) :
    Agrees (blockEntries (fuel + 1) depth) (blockEntries (fuel + 1) more) := by
  unfold blockEntries
  refine .bind (.refl _) fun here => ?_
  split
  · refine (ih.nodeOrEmpty _ _).bind fun key => ?_
    refine (ih.nodeOrEmpty _ _).entryValue.bind fun value => ?_
    exact ih.blockEntries.bind fun others => .refl _
  · exact .refl _

theorem agrees_flowItems (ih : ∀ {depth more}, depth ≤ more → BuildsAlike fuel depth more)
    (h : depth ≤ more) (first : Bool) :
    Agrees (flowItems (fuel + 1) depth first) (flowItems (fuel + 1) more first) := by
  unfold flowItems
  refine .bind (.refl _) fun closed => ?_
  split
  · exact .refl _
  · refine .bind (.refl _) fun _ => .bind (.refl _) fun keyed => ?_
    split
    · -- The mapping that a key makes is a level of its own.
      cases depth with
      | zero => exact agrees_tooDeep _
      | succ inner =>
          obtain ⟨outer, rfl⟩ : ∃ m, more = m + 1 := ⟨more - 1, by omega⟩
          have hinner := ih (Nat.le_of_succ_le_succ h)
          refine (hinner.nodeOrEmpty _ _).bind fun key => ?_
          refine (hinner.nodeOrEmpty _ _).entryValue.bind fun value => ?_
          exact .bind (.refl _) fun pair => ((ih h).flowItems _).bind fun others => .refl _
    · refine .bind (.refl _) fun closed => ?_
      split
      · exact .refl _
      · exact ((ih h).node _).bind fun item => ((ih h).flowItems _).bind fun others => .refl _

theorem agrees_flowEntries (ih : BuildsAlike fuel depth more) (first : Bool) :
    Agrees (flowEntries (fuel + 1) depth first) (flowEntries (fuel + 1) more first) := by
  unfold flowEntries
  refine .bind (.refl _) fun closed => ?_
  split
  · exact .refl _
  · refine .bind (.refl _) fun _ => .bind (.refl _) fun keyed => ?_
    split
    · refine (ih.nodeOrEmpty _ _).bind fun key => ?_
      refine (ih.nodeOrEmpty _ _).entryValue.bind fun value => ?_
      exact (ih.flowEntries _).bind fun others => .refl _
    · refine .bind (.refl _) fun closed => ?_
      split
      · exact .refl _
      · refine (ih.node _).bind fun key => .bind (.refl _) fun value => ?_
        exact (ih.flowEntries _).bind fun others => .refl _

theorem buildsAlike (fuel : Nat) (h : depth ≤ more) : BuildsAlike fuel depth more := by
  induction fuel generalizing depth more with
  | zero =>
      refine ⟨fun _ => ?_, fun _ _ => ?_, ?_, ?_, ?_, fun _ => ?_, fun _ => ?_⟩
      · simp only [node]
        exact .refl _
      · simp only [nodeOrEmpty]
        exact .refl _
      · simp only [blockItems]
        exact .refl _
      · simp only [entries]
        exact .refl _
      · simp only [blockEntries]
        exact .refl _
      · simp only [flowItems]
        exact .refl _
      · simp only [flowEntries]
        exact .refl _
  | succ fuel ih =>
      exact ⟨agrees_node ih h, agrees_nodeOrEmpty (ih h), agrees_blockItems (ih h),
        agrees_entries (ih h), agrees_blockEntries (ih h), agrees_flowItems ih h,
        agrees_flowEntries (ih h)⟩

theorem agrees_markedRoot (h : depth ≤ more) :
    Agrees (markedRoot fuel depth) (markedRoot fuel more) := by
  unfold markedRoot
  refine .bind (.refl _) fun next => ?_
  split
  · exact .refl _
  · exact .refl _
  · exact .refl _
  · exact .refl _
  · exact (buildsAlike fuel h).node _

theorem agrees_document (h : depth ≤ more) : Agrees (document depth) (document more) := by
  unfold document
  refine .bind (.refl _) fun b => .bind (.refl _) fun next => ?_
  split
  · exact .refl _
  · refine .bind (.refl _) fun declared => .bind (.refl _) fun _ => .bind (.refl _) fun _ => ?_
    exact (agrees_markedRoot h).bind fun root => .refl _
  · refine .bind (.refl _) fun declared => .bind (.refl _) fun _ => .bind (.refl _) fun _ => ?_
    exact (agrees_markedRoot h).bind fun root => .refl _
  · exact ((buildsAlike _ h).node _).bind fun root => .refl _

end Builder

theorem agrees_readWithin {depth more : Nat} (h : depth ≤ more) (text : List Char) :
    AgreesUnless (· = Fault.tooDeep) (readWithin depth text) (readWithin more text) := by
  unfold readWithin Graph.ofTokens
  refine .bind (.refl _) fun ts => ?_
  exact ((Builder.agrees_document h _).bind fun built => .refl _).bind fun graph => .refl _

end Yaml

section Documents

variable {room more : Room}

namespace Document

variable {source : Source} {hint : Hint} {s : String}

/-- A text runs out of room in a format that it is read as. -/
def Exhausts (room : Room) (hint : Hint) (s : String) : Prop :=
  match hint with
  | .json => ∃ fault, Json.readWithin room.json s.toList = .error fault ∧ Json.IsTooDeep fault
  | .yaml => Yaml.readWithin room.yaml s.toList = .error .tooDeep
  | .none => ∃ fault, Json.readWithin room.json s.toList = .error fault ∧
      (Json.IsTooDeep fault ∨ Yaml.readWithin room.yaml s.toList = .error .tooDeep)

theorem decode_of_le (h : room ≤ more) (hroom : ¬Exhausts room hint s) :
    decode hint s more = decode hint s room := by
  have hyaml (hread : Yaml.readWithin room.yaml s.toList ≠ .error .tooDeep) :
      Yaml.readWithin more.yaml s.toList = Yaml.readWithin room.yaml s.toList := by
    refine (Yaml.agrees_readWithin h.2 s.toList).eq fun fault hfault hdeep => hread ?_
    rw [hfault, hdeep]
  have hjson (hread : ∀ fault, Json.readWithin room.json s.toList = .error fault →
      ¬Json.IsTooDeep fault) :
      Json.readWithin more.json s.toList = Json.readWithin room.json s.toList :=
    (Json.agrees_readWithin h.1 s.toList).eq hread
  cases hint with
  | json =>
      simp only [decode, hjson fun fault hfault hdeep => hroom ⟨fault, hfault, hdeep⟩]
  | yaml =>
      simp only [decode, readYaml, hyaml hroom]
  | none =>
      simp only [decode, hjson fun fault hfault hdeep => hroom ⟨fault, hfault, .inl hdeep⟩]
      cases hread : Json.readWithin room.json s.toList with
      | ok v => rfl
      | error fault =>
          simp only [readYaml, hyaml fun hdeep => hroom ⟨fault, hread, .inr hdeep⟩]

theorem load_of_le (h : room ≤ more)
    (hroom : ∀ s, sourceText source = .ok s → ¬Exhausts room hint s) :
    load source hint more = load source hint room := by
  unfold load
  cases hs : sourceText source with
  | error failure => rfl
  | ok s =>
      simp only [bind, Except.bind, decode_of_le h (hroom s hs)]

end Document

namespace Compilation

variable {path : String} {octets : List UInt8} {files : List (String × List UInt8)}

/-- There is room for the document in a file. -/
def NestsWithin (room : Room) (file : String × List UInt8) : Prop :=
  ∀ s, Document.sourceText (.octets file.2) = .ok s →
    ¬Document.Exhausts room (Document.hintFor (.ofString file.1)) s

theorem compileFile_of_le (h : room ≤ more) (hfile : NestsWithin room (path, octets)) :
    compileFile path octets more = compileFile path octets room := by
  simp only [compileFile, Document.parse, Document.load_of_le h hfile]

theorem compileFiles_of_le (h : room ≤ more) (hfiles : ∀ f ∈ files, NestsWithin room f) :
    compileFiles files more = compileFiles files room := by
  induction files with
  | nil => rfl
  | cons f rest ih =>
      have hrest := ih fun g hg => hfiles g (List.mem_cons_of_mem _ hg)
      rw [compileFiles, compileFiles, compileFile_of_le h (hfiles f List.mem_cons_self), hrest]

end Compilation

end Documents

end EndpointBindings
