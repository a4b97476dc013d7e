import Mathlib.Data.List.Dedup
import Mathlib.Data.List.TFAE
import Mathlib.Tactic.TFAE
import EndpointBindings.Proofs.AssemblySuccess
import EndpointBindings.Proofs.Identifiers
import EndpointBindings.Proofs.LiteralMeaning
import EndpointBindings.Proofs.SourceLines

/-!
The call that an emitted function makes, read back from its source: the path, and the mapping from
part names to the arguments that carry them. An argument reaches the transport unless a later entry
of the mapping has its key, so all of them do exactly when the path names no part twice.
-/

namespace EndpointBindings.Emission

open EndpointBindings.Naming EndpointBindings.Text

/-- The names of the arguments that a source declares, from line to line behind its first. -/
def argumentNames (source : String) : List String :=
  (((sourceLines source).drop 1).takeWhile (· ≠ ") -> Any:")).map fun line =>
    String.ofList ((listedItem "    " line).toList.takeWhile (· ≠ ':'))

/-- The arguments of a source that stand for parts of the path. -/
def pathArguments (source : String) : List String :=
  (argumentNames source).filter (· ∉ reservedArguments)

/-- What a function hands to the transport: the path, and the entries of the mapping of parts, each
with a name whose value it has. Texts are given by their code points. -/
structure Call where
  path : List Nat
  parts : List (List Nat × String)
  deriving DecidableEq, Repr

def callLine : String := "    return transport.request("

/-- The expressions between the brackets of the call. -/
def callItems (source : String) : List String :=
  (linesBetween callLine "    )" (sourceLines source)).map (listedItem "        ")

/-- The expression that an argument gives to a keyword. -/
def keywordValue? (keyword item : String) : Option (List Char) :=
  if (keyword.toList ++ ['=']).isPrefixOf item.toList then
    some (item.toList.drop (keyword.toList ++ ['=']).length)
  else none

def isNameEnd (c : Char) : Bool := !(c.isAlphanum || c == '_')

/-- The entries of a mapping from behind its opening brace, each a literal with a name. -/
def readEntries? (named : String → Option Nat) (cs : List Char) :
    Option (List (List Nat × String)) :=
  match _ : readText? named cs with
  | some (key, ':' :: ' ' :: more) =>
    let name := String.ofList (more.takeWhile (!isNameEnd ·))
    match _ : more.dropWhile (!isNameEnd ·) with
    | ['}'] => some [(key, name)]
    | ',' :: ' ' :: rest => (readEntries? named rest).map ((key, name) :: ·)
    | _ => none
  | _ => none
termination_by cs.length
decreasing_by
  have htext := length_of_readText? ‹readText? _ _ = _›
  have hname := (List.dropWhile_sublist (l := more) (!isNameEnd ·)).length_le
  rw [‹more.dropWhile _ = _›] at hname
  simp only [List.length_cons] at htext hname
  omega

def readMapping? (named : String → Option Nat) : List Char → Option (List (List Nat × String))
  | '{' :: cs => readEntries? named cs
  | _ => none

/-- The call of a source. A call without parts has no mapping of them. -/
def readCall? (named : String → Option Nat) (source : String) : Option Call :=
  match callItems source with
  | _ :: path :: keywords =>
    match evaluate? named path, keywords.findSome? (keywordValue? "parts") with
    | some (.text points), none => some ⟨points, []⟩
    | some (.text points), some mapping => (readMapping? named mapping).map (⟨points, ·⟩)
    | _, _ => none
  | _ => none

/-- What a mapping that is written as entries has under a key: of entries with one key, the last
counts. -/
def valueUnder (key : List Nat) : List (List Nat × String) → Option String
  | [] => none
  | (k, value) :: rest => (valueUnder key rest).or (if k = key then some value else none)

section Entries

variable {named : String → Option Nat} {rest : List Char} {name : String} {p : PartArgument}
  {ps : List PartArgument}

/-- An entry of the mapping of parts. -/
def PartArgument.entry (p : PartArgument) : String := Escaped.ascii p.part.name ++ ": " ++ p.name

def PartArgument.pair (p : PartArgument) : List Nat × String := (units p.part.name, p.name)

theorem span_name {c : Char} (h : IsNameText name) (hc : isNameEnd c = true) (rest : List Char) :
    (name.toList ++ c :: rest).takeWhile (!isNameEnd ·) = name.toList ∧
      (name.toList ++ c :: rest).dropWhile (!isNameEnd ·) = c :: rest := by
  have hname : ∀ d ∈ name.toList, (!isNameEnd d) = true := by
    intro d hd
    rcases h d hd with hd | hd <;> simp [isNameEnd, hd]
  rw [List.takeWhile_append_of_pos hname, List.dropWhile_append_of_pos hname]
  simp [hc]

theorem readText?_entry : readText? named (p.entry.toList ++ rest) =
    some (units p.part.name, ':' :: ' ' :: (p.name.toList ++ rest)) := by
  have hentry : p.entry.toList ++ rest =
      (Escaped.ascii p.part.name).toList ++ ':' :: ' ' :: (p.name.toList ++ rest) := by
    simp [PartArgument.entry]
  rw [hentry]
  exact readText?_ascii (by simp)

theorem readEntries?_last (h : IsNameText p.name) :
    readEntries? named (p.entry.toList ++ ['}']) = some [p.pair] := by
  obtain ⟨htake, hdrop⟩ := span_name h (by decide : isNameEnd '}' = true) []
  rw [readEntries?, readText?_entry]
  split
  · rename_i key more hread
    obtain ⟨rfl, hmore⟩ := Prod.mk.inj (Option.some.inj hread)
    obtain rfl : p.name.toList ++ ['}'] = more := by simpa using hmore
    rw [htake, hdrop]
    simp [PartArgument.pair]
  · simp_all

theorem readEntries?_next (h : IsNameText p.name) :
    readEntries? named (p.entry.toList ++ ',' :: ' ' :: rest) =
      (readEntries? named rest).map (p.pair :: ·) := by
  obtain ⟨htake, hdrop⟩ := span_name h (by decide : isNameEnd ',' = true) (' ' :: rest)
  rw [readEntries?, readText?_entry]
  split
  · rename_i key more hread
    obtain ⟨rfl, hmore⟩ := Prod.mk.inj (Option.some.inj hread)
    obtain rfl : p.name.toList ++ ',' :: ' ' :: rest = more := by simpa using hmore
    rw [htake, hdrop]
    simp [PartArgument.pair]
  · simp_all

/-- The entries of a mapping are read back up to the brace that closes it. -/
theorem readEntries?_entries (h : ∀ q ∈ p :: ps, IsNameText q.name) :
    readEntries? named ((", ".intercalate ((p :: ps).map PartArgument.entry)).toList ++ ['}']) =
      some ((p :: ps).map PartArgument.pair) := by
  induction ps generalizing p with
  | nil =>
      rw [List.map_singleton, String.intercalate_singleton]
      exact readEntries?_last (h p List.mem_cons_self)
  | cons q more ih =>
      obtain ⟨hp, hmore⟩ := List.forall_mem_cons.mp h
      have hcomma : (", ".intercalate ((p :: q :: more).map PartArgument.entry)).toList ++ ['}'] =
          p.entry.toList ++ ',' :: ' ' ::
            ((", ".intercalate ((q :: more).map PartArgument.entry)).toList ++ ['}']) := by
        simp only [List.map_cons, String.intercalate_cons_cons, String.toList_append,
          List.append_assoc]
        rfl
      rw [hcomma, readEntries?_next hp, ih hmore]
      rfl

end Entries

section Lines

variable {f : Function} {name : String}

def Function.headLines (f : Function) : List String :=
  ("def " ++ f.name ++ "(") :: (f.arguments.map argumentLine ++ ") -> Any:" :: f.docLines)

def Function.callLines (f : Function) : List String :=
  ([Escaped.ascii f.verb.token, Escaped.ascii f.path.raw] ++ f.keywordArguments).map keywordLine

theorem Function.lines_eq_call (f : Function) :
    f.lines = f.headLines ++ callLine :: (f.callLines ++ ["    )"]) := by
  rw [lines_eq, Function.headLines, Function.callLines, callLine]
  simp only [String.empty_append, List.append_assoc, List.cons_append, List.nil_append,
    List.map_cons]

theorem callLine_ne_of_mem {c : Char} (hc : c = ':' ∨ c = '"') (h : c ∈ name.toList) :
    callLine ≠ name := by
  rintro rfl
  rcases hc with rfl | rfl <;> exact absurd h (by decide)

theorem callLine_notMem_docLines : callLine ∉ f.docLines := by
  have hquotes : ∀ text, '"' ∈ ("    \"\"\"" ++ text).toList := by
    intro text
    rw [String.toList_append]
    exact List.mem_append_left _ (by decide)
  have hopen : callLine ≠ "    \"\"\"" ++ f.summary := callLine_ne_of_mem (.inr rfl) (hquotes _)
  have hdocs : callLine ∉ f.argumentDocs.map (fun d => "        " ++ d.1 ++ ": " ++ d.2) := by
    intro hmem
    obtain ⟨d, -, hd⟩ := List.mem_map.mp hmem
    exact callLine_ne_of_mem (.inl rfl) (by simp) hd.symm
  unfold Function.docLines
  split
  · rw [List.mem_singleton, String.append_assoc]
    exact callLine_ne_of_mem (.inr rfl) (hquotes _)
  · simp only [List.mem_append, List.mem_cons, List.not_mem_nil, or_false, not_or]
    exact ⟨⟨⟨hopen, by decide, by decide⟩, hdocs⟩, by decide⟩

theorem callLine_notMem_headLines : callLine ∉ f.headLines := by
  have hdef : callLine ≠ "def " ++ f.name ++ "(" := by
    intro h
    have hhead := congrArg (fun s => s.toList.head?) h
    simp [callLine] at hhead
  have harguments : callLine ∉ f.arguments.map argumentLine := by
    intro hmem
    obtain ⟨a, -, ha⟩ := List.mem_map.mp hmem
    exact callLine_ne_of_mem (.inl rfl) (by simp [argumentLine, Argument.render]) ha.symm
  simp only [Function.headLines, List.mem_append, List.mem_cons, not_or]
  exact ⟨hdef, harguments, by decide, callLine_notMem_docLines⟩

theorem close_notMem_callLines : "    )" ∉ f.callLines := by
  intro hmem
  obtain ⟨k, -, hk⟩ := List.mem_map.mp hmem
  have hlength := congrArg (fun s => s.toList.length) hk
  simp [keywordLine] at hlength

theorem callItems_render (h : f.IsNamed) : callItems f.render =
    [Escaped.ascii f.verb.token, Escaped.ascii f.path.raw] ++ f.keywordArguments := by
  rw [callItems, sourceLines_render h, Function.lines_eq_call]
  rw [linesBetween_eq callLine_notMem_headLines close_notMem_callLines, Function.callLines,
    List.map_map]
  exact List.map_id'' (fun k => listedItem_eq "        " k) _

/-- The lines in the brackets behind the name of a function are its arguments. -/
theorem argumentLines_render (h : f.IsNamed) :
    ((sourceLines f.render).drop 1).takeWhile (· ≠ ") -> Any:") =
      f.arguments.map argumentLine := by
  rw [sourceLines_render h, Function.lines_eq_call, Function.headLines, List.cons_append,
    List.drop_one, List.tail_cons, List.append_assoc, List.takeWhile_append_of_pos]
  · simp
  · intro l hl
    obtain ⟨a, -, rfl⟩ := List.mem_map.mp hl
    simp only [decide_eq_true_eq]
    intro hclose
    have hhead := congrArg (fun s => s.toList.head?) hclose
    simp [argumentLine] at hhead

theorem takeWhile_render {a : Argument} (h : IsNameText a.name) :
    a.render.toList.takeWhile (· ≠ ':') = a.name.toList := by
  have hcolon : ∀ c ∈ a.name.toList, decide (c ≠ ':') = true := by
    intro c hc
    rw [decide_eq_true_eq]
    rintro rfl
    rcases h _ hc with h | h <;> exact absurd h (by decide)
  have hrender : a.render.toList = a.name.toList ++ ':' :: ' ' ::
      (a.hint.render ++ (if a.hasDefault then " = None" else "")).toList := by
    simp [Argument.render]
  rw [hrender, List.takeWhile_append_of_pos hcolon]
  simp

theorem isNameText_of_mem_reservedArguments (hk : name ∈ reservedArguments) : IsNameText name := by
  have hall : ∀ name ∈ reservedArguments, name.toList.all Char.isAlphanum = true := by decide
  exact fun c hc => .inl (List.all_eq_true.mp (hall name hk) c hc)

theorem Function.IsNamed.isNameText {a : Argument} (h : f.IsNamed) (ha : a ∈ f.arguments) :
    IsNameText a.name := by
  rcases mem_arguments_iff.mp ha with rfl | ⟨p, hp, rfl⟩ | ⟨-, rfl⟩ | rfl
  · exact isNameText_of_mem_reservedArguments (by simp [reservedArguments])
  · exact h.parts p hp
  · exact isNameText_of_mem_reservedArguments (by simp [reservedArguments])
  · split <;> exact isNameText_of_mem_reservedArguments (by simp [reservedArguments])

theorem argumentNames_render (h : f.IsNamed) :
    argumentNames f.render = f.arguments.map (·.name) := by
  rw [argumentNames, argumentLines_render h, List.map_map]
  apply List.map_congr_left
  intro a ha
  rw [Function.comp_apply, argumentLine, listedItem_eq, takeWhile_render (h.isNameText ha),
    String.ofList_toList]

end Lines

section Calls

variable {named : String → Option Nat} {f : Function} {k : String}

theorem keywordValue?_parts (k : String) :
    keywordValue? "parts" ("parts=" ++ k) = some k.toList := by
  have hkeyword : ("parts=" ++ k).toList = "parts=".toList ++ k.toList := String.toList_append
  have hlabel : "parts".toList ++ ['='] = "parts=".toList := by decide
  rw [keywordValue?, hlabel, hkeyword, if_pos (by simp), List.drop_left]

theorem findSome?_keywordArguments (f : Function) :
    f.keywordArguments.findSome? (keywordValue? "parts") =
      if f.parts.isEmpty then none else some f.partsMapping.toList := by
  have hserialize : f.serializeHint.findSome? (keywordValue? "parts") = none := by
    rw [serializeHint_eq]
    split
    · rfl
    · rw [List.findSome?_singleton, keywordValue?, String.toList_append]
      exact if_neg Bool.false_ne_true
  have hbody : (if f.body.isSome then ["body=body"] else []).findSome? (keywordValue? "parts") =
      none := by
    split <;> decide
  have hparams : ["params=params"].findSome? (keywordValue? "parts") = none := by decide
  simp only [Function.keywordArguments, List.findSome?_append, hserialize, hbody, hparams,
    Option.or_none]
  split
  · rfl
  · rw [List.findSome?_singleton]
    exact keywordValue?_parts _

/-- The call of a function has the path as the template is written, and an entry for each part. -/
theorem readCall?_render (h : f.IsNamed) : readCall? named f.render =
    some ⟨units f.path.raw, f.parts.map PartArgument.pair⟩ := by
  rw [readCall?, callItems_render h, List.cons_append, List.cons_append, List.nil_append]
  dsimp only
  rw [evaluate?_ascii, findSome?_keywordArguments]
  cases hparts : f.parts with
  | nil => rfl
  | cons p ps =>
      have hmapping : f.partsMapping.toList =
          '{' :: ((", ".intercalate ((p :: ps).map PartArgument.entry)).toList ++ ['}']) := by
        rw [Function.partsMapping, hparts, String.toList_append, String.toList_append]
        rfl
      have hnames : ∀ q ∈ p :: ps, IsNameText q.name := fun q hq => h.parts q (hparts ▸ hq)
      rw [hmapping]
      simp only [List.isEmpty_cons, Bool.false_eq_true, if_false, readMapping?,
        readEntries?_entries hnames, Option.map_some]

/-- A function's arguments are those that stand for parts, and others with reserved names. -/
theorem argument_names_filter (hfree : ∀ p ∈ f.parts, p.name ∉ reservedArguments) :
    (f.arguments.map (·.name)).filter (· ∉ reservedArguments) = f.parts.map (·.name) := by
  have hparts : (f.parts.map (·.name)).filter (· ∉ reservedArguments) = f.parts.map (·.name) := by
    rw [List.filter_eq_self]
    intro name hname
    obtain ⟨p, hp, rfl⟩ := List.mem_map.mp hname
    simpa using hfree p hp
  simp only [Function.arguments, List.map_append, List.filter_append, List.map_map,
    Function.comp_def, hparts]
  cases f.bodyRequired <;> cases f.paramsRequired <;> cases f.body.isSome <;>
    simp [reservedArguments]

theorem pathArguments_render (h : f.IsNamed) (hfree : ∀ p ∈ f.parts, p.name ∉ reservedArguments) :
    pathArguments f.render = f.parts.map (·.name) := by
  rw [pathArguments, argumentNames_render h]
  exact argument_names_filter hfree

end Calls

section Plans

variable {e : Endpoint} {cls : String} {verb : Verb} {taken : List String}
  {paths : List PathTemplate} {parts : List PathPart} {f : Function}

theorem partArguments_parts : (partArguments taken parts).map (·.part) = parts := by
  rw [partArguments, map_nameInTurn_eq_map id fun _ _ => by rfl, List.map_id]

theorem partArguments_names : (partArguments taken parts).map (·.name) =
    uniqueIdentifiers taken (parts.map fun part => identifier part.name) := by
  rw [partArguments, map_nameInTurn, uniqueIdentifiers, nameInTurn_map]

theorem parts_of_mem_functionsOf (hf : f ∈ functionsOf e cls verb taken paths) :
    f.path ∈ paths ∧ f.parts = partArguments reservedArguments f.path.parts := by
  obtain ⟨path, hpath, k, rfl⟩ := exists_functionOf_eq hf
  exact ⟨hpath, rfl⟩

end Plans

section Mappings

variable {key : List Nat} {value : String} {entries : List (List Nat × String)}

theorem mem_of_valueUnder (h : valueUnder key entries = some value) : (key, value) ∈ entries := by
  induction entries with
  | nil => simp [valueUnder] at h
  | cons entry rest ih =>
      obtain ⟨k, v⟩ := entry
      rw [valueUnder, Option.or_eq_some_iff] at h
      rcases h with h | ⟨-, h⟩
      · exact List.mem_cons_of_mem _ (ih h)
      · split at h
        · rename_i hk
          obtain rfl := Option.some.inj h
          rw [hk]
          exact List.mem_cons_self
        · simp at h

theorem valueUnder_eq_none_iff : valueUnder key entries = none ↔ key ∉ entries.map (·.1) := by
  induction entries with
  | nil => simp [valueUnder]
  | cons entry rest ih =>
      obtain ⟨k, v⟩ := entry
      rw [valueUnder, Option.or_eq_none_iff, ih, List.map_cons, List.mem_cons]
      by_cases hk : k = key
      · simp [hk]
      · simp [hk, Ne.symm hk]

/-- Of different values, all are had under some key exactly when no key comes twice. -/
theorem forall_exists_valueUnder_iff (hvalues : (entries.map (·.2)).Nodup) :
    (∀ value ∈ entries.map (·.2), ∃ key, valueUnder key entries = some value) ↔
      (entries.map (·.1)).Nodup := by
  induction entries with
  | nil => simp
  | cons entry rest ih =>
      obtain ⟨k, v⟩ := entry
      obtain ⟨hfirst, hrest⟩ := List.nodup_cons.mp hvalues
      have hnew : ∀ {key}, valueUnder key rest ≠ some v := fun h =>
        hfirst (List.mem_map_of_mem (f := (·.2)) (mem_of_valueUnder h))
      rw [List.map_cons, List.map_cons, List.nodup_cons, ← ih hrest, List.forall_mem_cons]
      constructor
      -- The first value is had only under its own key, and only if that key does not come again.
      · rintro ⟨⟨key, hkey⟩, hall⟩
        rw [valueUnder, Option.or_eq_some_iff, or_iff_right hnew] at hkey
        obtain ⟨hnone, hif⟩ := hkey
        obtain rfl : k = key := by
          by_contra hk
          simp [hk] at hif
        refine ⟨valueUnder_eq_none_iff.mp hnone, fun value hvalue => ?_⟩
        obtain ⟨other, hother⟩ := hall value hvalue
        rw [valueUnder, Option.or_eq_some_iff] at hother
        rcases hother with hother | ⟨-, hlast⟩
        · exact ⟨other, hother⟩
        · split at hlast
          · obtain rfl := Option.some.inj hlast
            exact absurd hvalue hfirst
          · simp at hlast
      · rintro ⟨hk, hall⟩
        refine ⟨⟨k, ?_⟩, fun value hvalue => ?_⟩
        · rw [valueUnder, valueUnder_eq_none_iff.mpr hk, Option.none_or, if_pos rfl]
        · obtain ⟨key, hkey⟩ := hall value hvalue
          exact ⟨key, by rw [valueUnder, hkey, Option.some_or]⟩

end Mappings

section Documents

variable {document : Fields} {e : Endpoint} {f : Function}

structure Function.IsPlanned (e : Endpoint) (f : Function) : Prop where
  named : f.IsNamed
  path : f.path ∈ e.paths
  parts : f.parts = partArguments reservedArguments f.path.parts

theorem Function.IsPlanned.free (h : f.IsPlanned e) :
    ∀ p ∈ f.parts, p.name ∉ reservedArguments := by
  intro p hp
  have hmem : p.name ∈ (partArguments reservedArguments f.path.parts).map (·.name) :=
    List.mem_map_of_mem (h.parts ▸ hp)
  rw [partArguments_names] at hmem
  exact uniqueIdentifiers_nodup.2 _ hmem

theorem Function.IsPlanned.names_nodup (h : f.IsPlanned e) : (f.parts.map (·.name)).Nodup := by
  rw [h.parts, partArguments_names]
  exact uniqueIdentifiers_nodup.1

theorem Function.IsPlanned.keys (h : f.IsPlanned e) :
    (f.parts.map PartArgument.pair).map (·.1) = (f.path.parts.map (·.name)).map units := by
  have hparts : f.parts.map (·.part) = f.path.parts := by rw [h.parts, partArguments_parts]
  rw [← hparts]
  simp [PartArgument.pair]

/-- A document has functions, and all of them are planned for its endpoint. -/
theorem exists_planned_functions (hassemble : assemble document = .ok e) (stem : String) :
    ∃ bindings, bindingsOf (e.orNamed stem) = .ok bindings ∧
      (∃ b ∈ bindings, ∃ f, f ∈ b.functions) ∧
      ∀ b ∈ bindings, ∀ f ∈ b.functions, f.IsPlanned e := by
  obtain ⟨hverbs, hpaths⟩ := Assembly.isEmittable_of_assemble hassemble
  have hemittable : IsEmittable (e.name.getD stem) (e.orNamed stem) := ⟨rfl, hverbs, hpaths⟩
  refine ⟨_, bindingsOf_eq hemittable, ?_, ?_⟩
  · obtain ⟨verb, hverb⟩ := List.exists_mem_of_ne_nil _ hverbs
    exact ⟨_, List.mem_map_of_mem (Verb.mem_canonical.mpr hverb),
      List.exists_mem_of_ne_nil _ (functions_ne_nil (e := e.orNamed stem) hpaths _ verb)⟩
  · intro b hb f hf
    obtain ⟨verb, -, rfl⟩ := List.mem_map.mp hb
    obtain ⟨hpath, hparts⟩ := parts_of_mem_functionsOf hf
    exact ⟨isNamed_of_mem_functionsOf isNameText_className hf, hpath, hparts⟩

/-- Where the paths of a document pass a check, it has a function for a path that does. -/
theorem exists_checked_function {check : PathTemplate → Bool}
    (h : isOkWith (fun e => e.paths.all check) (assemble document) = true) (stem : String) :
    ∃ e bindings, assemble document = .ok e ∧ bindingsOf (e.orNamed stem) = .ok bindings ∧
      ∃ b ∈ bindings, ∃ f ∈ b.functions, f.IsPlanned e ∧ check f.path = true := by
  obtain ⟨e, he, hchecked⟩ := exists_of_isOkWith h
  obtain ⟨bindings, hbindings, ⟨b, hb, f, hf⟩, hplanned⟩ := exists_planned_functions he stem
  have hf' := hplanned b hb f hf
  exact ⟨e, bindings, he, hbindings, b, hb, f, hf, hf', List.all_eq_true.mp hchecked _ hf'.path⟩

/-- Every function of a document hands each of its path arguments to the transport under one key.
The following are the same for it: the keys differ, the mapping has as many entries as there are
path arguments, every path argument is had under some key, and the template names no part twice. -/
theorem path_arguments_kept_tfae (named : String → Option Nat)
    (hassemble : assemble document = .ok e) (stem : String) :
    ∃ bindings, bindingsOf (e.orNamed stem) = .ok bindings ∧
      ∀ b ∈ bindings, ∀ f ∈ b.functions, f.path ∈ e.paths ∧
        ∃ call, readCall? named f.render = some call ∧
          call.parts.map (·.2) = pathArguments f.render ∧
          [(call.parts.map (·.1)).Nodup,
            (call.parts.map (·.1)).dedup.length = (pathArguments f.render).length,
            ∀ argument ∈ pathArguments f.render, ∃ key, valueUnder key call.parts = some argument,
            (f.path.parts.map (·.name)).Nodup].TFAE := by
  obtain ⟨bindings, hbindings, -, hplanned⟩ := exists_planned_functions hassemble stem
  refine ⟨bindings, hbindings, fun b hb f hf => ?_⟩
  have h := hplanned b hb f hf
  have hpairs : (f.parts.map PartArgument.pair).map (·.2) = f.parts.map (·.name) := by
    simp [PartArgument.pair]
  have harguments : pathArguments f.render = (f.parts.map PartArgument.pair).map (·.2) :=
    (pathArguments_render h.named h.free).trans hpairs.symm
  have hvalues : ((f.parts.map PartArgument.pair).map (·.2)).Nodup := hpairs ▸ h.names_nodup
  refine ⟨h.path, _, readCall?_render h.named, harguments.symm, ?_⟩
  rw [harguments]
  tfae_have 1 ↔ 4 := by rw [h.keys, List.nodup_map_iff units_injective]
  tfae_have 1 ↔ 3 := (forall_exists_valueUnder_iff hvalues).symm
  tfae_have 2 ↔ 1 := by
    rw [← List.dedup_eq_self, ← (List.dedup_sublist _).length_eq]
    simp
  tfae_finish

/-- A document with one path, all of whose parts are strings. -/
def routed (path : String) (parts : List String) : Fields :=
  [(.text "methods", .list [.text "GET"]),
   (.text "url", .mapping [(.text "path", .text path),
     (.text "parts", .mapping (parts.map fun name =>
       (.text name, .mapping [(.text "type", .text "string")])))])]

/-- Two parts whose names differ by less than their arguments do. -/
theorem path_arguments_kept_clashing :
    ∃ e bindings, assemble (routed "/\x7ba b\x7d/\x7ba-b\x7d" ["a b", "a-b"]) = .ok e ∧
      bindingsOf (e.orNamed "clashing") = .ok bindings ∧
      ∃ b ∈ bindings, ∃ f ∈ b.functions, ∃ call, readCall? (fun _ => none) f.render = some call ∧
        call.parts.map (·.2) = pathArguments f.render ∧ (call.parts.map (·.1)).Nodup := by
  have hchecked : isOkWith (fun e => e.paths.all fun path =>
      path.parts.map (·.name) == ["a b", "a-b"])
      (assemble (routed "/\x7ba b\x7d/\x7ba-b\x7d" ["a b", "a-b"])) = true := by decide +kernel
  obtain ⟨e, bindings, he, hbindings, b, hb, f, hf, -, hnames⟩ :=
    exists_checked_function hchecked "clashing"
  obtain ⟨_, hsame, hkept⟩ := path_arguments_kept_tfae (fun _ => none) he "clashing"
  obtain rfl := Except.ok.inj (hsame.symm.trans hbindings)
  obtain ⟨-, call, hcall, harguments, htfae⟩ := hkept b hb f hf
  have hdistinct : (f.path.parts.map (·.name)).Nodup := by
    rw [beq_iff_eq.mp hnames]
    decide
  exact ⟨e, _, he, hbindings, b, hb, f, hf, call, hcall, harguments,
    (htfae.out 0 3).mpr hdistinct⟩

/-- A part that a template names twice has two arguments, of which one does not reach the
transport. -/
theorem path_argument_dropped :
    ∃ e bindings, assemble (routed "/\x7bx\x7d/\x7bx\x7d" ["x"]) = .ok e ∧
      bindingsOf (e.orNamed "twice") = .ok bindings ∧
      ∃ b ∈ bindings, ∃ f ∈ b.functions, ∃ call, readCall? (fun _ => none) f.render = some call ∧
        pathArguments f.render = ["x", "x_"] ∧ call.parts.map (·.1) = [units "x", units "x"] ∧
        ¬∀ argument ∈ pathArguments f.render, ∃ key,
          valueUnder key call.parts = some argument := by
  have hchecked : isOkWith (fun e => e.paths.all fun path => path.parts.map (·.name) == ["x", "x"])
      (assemble (routed "/\x7bx\x7d/\x7bx\x7d" ["x"])) = true := by decide +kernel
  obtain ⟨e, bindings, he, hbindings, b, hb, f, hf, h, hsame⟩ :=
    exists_checked_function hchecked "twice"
  have hnames : f.path.parts.map (·.name) = ["x", "x"] := beq_iff_eq.mp hsame
  have hidentifiers : f.path.parts.map (fun part => identifier part.name) =
      ["x", "x"].map identifier := by
    rw [← hnames, List.map_map]
    rfl
  have hparts : f.parts.map (·.name) = ["x", "x_"] := by
    rw [h.parts, partArguments_names, hidentifiers]
    decide +kernel
  have harguments := pathArguments_render h.named h.free
  have hkeys : (f.parts.map PartArgument.pair).map (·.1) = [units "x", units "x"] := by
    rw [h.keys, hnames]
    rfl
  have hvalues : (f.parts.map PartArgument.pair).map (·.2) = ["x", "x_"] := by
    rw [← hparts]
    simp [PartArgument.pair]
  refine ⟨e, bindings, he, hbindings, b, hb, f, hf, _, readCall?_render h.named,
    harguments.trans hparts, hkeys, ?_⟩
  rw [harguments, hparts, ← hvalues,
    forall_exists_valueUnder_iff (by rw [hvalues]; decide), hkeys]
  simp

end Documents

end EndpointBindings.Emission
