import EndpointBindings.Proofs.ModuleSkeleton
import EndpointBindings.Proofs.PackageModules

/-!
What a module does not tell: the names of types that are not known, and the order in which its
endpoint has methods and parameters. A package tells no more than the modules do.
-/

namespace EndpointBindings

/-- A type without the name that it has if it is not known. -/
def ValueType.eraseName : ValueType → ValueType
  | .other _ => .other ""
  | type => type

def Param.eraseTypeName (p : Param) : Param := { p with type := p.type.eraseName }

def PathPart.eraseTypeName (p : PathPart) : PathPart := { p with type := p.type.eraseName }

def Segment.eraseTypeName : Segment → Segment
  | .literal text => .literal text
  | .part p => .part p.eraseTypeName

def PathTemplate.eraseTypeNames (t : PathTemplate) : PathTemplate :=
  { t with segments := t.segments.map Segment.eraseTypeName }

def Endpoint.eraseTypeNames (e : Endpoint) : Endpoint :=
  { e with
    paths := e.paths.map PathTemplate.eraseTypeNames
    params := e.params.map fun p => (p.1, p.2.eraseTypeName) }

theorem PathTemplate.parts_eraseTypeNames (t : PathTemplate) :
    t.eraseTypeNames.parts = t.parts.map PathPart.eraseTypeName := by
  rw [parts, parts, eraseTypeNames, List.filterMap_map, List.map_filterMap]
  apply List.filterMap_congr
  intro s _
  cases s <;> rfl

namespace NameMap

variable {α β : Type}

theorem insertEntry_map (f : α → β) (name : String) (value : α) (l : List (String × α)) :
    insertEntry name (f value) (l.map fun p => (p.1, f p.2)) =
      (insertEntry name value l).map fun p => (p.1, f p.2) := by
  induction l with
  | nil => rfl
  | cons e rest ih =>
      simp only [List.map_cons, insertEntry, ih]
      split
      · rfl
      · split <;> rfl

theorem entries_ofPairs_map (f : α → β) (l : List (String × α)) :
    (ofPairs (l.map fun p => (p.1, f p.2))).entries =
      (ofPairs l).entries.map fun p => (p.1, f p.2) := by
  have hfold : ∀ (m : NameMap α) (m' : NameMap β),
      m'.entries = m.entries.map (fun p => (p.1, f p.2)) →
      ((l.map fun p => (p.1, f p.2)).foldl (fun m p => m.insert p.1 p.2) m').entries =
        (l.foldl (fun m p => m.insert p.1 p.2) m).entries.map fun p => (p.1, f p.2) := by
    induction l with
    | nil => exact fun _ _ h => h
    | cons p rest ih =>
        intro m m' h
        apply ih
        change insertEntry p.1 (f p.2) m'.entries = _
        rw [h]
        exact insertEntry_map f p.1 p.2 m.entries
  exact hfold empty empty rfl

end NameMap

namespace Emission

open EndpointBindings.Naming

section Erasure

variable {taken : List String} {cls : String} {verb : Verb}

theorem ofType_eraseName (type : ValueType) :
    TypeHint.ofType type.eraseName = TypeHint.ofType type := by
  cases type <;> rfl

def Field.eraseTypeName (f : Field) : Field := { f with param := f.param.eraseTypeName }

theorem Field.hint_eraseTypeName (f : Field) : f.eraseTypeName.hint = f.hint := by
  have htype : TypeHint.ofType f.eraseTypeName.param.type = TypeHint.ofType f.param.type :=
    ofType_eraseName f.param.type
  rw [hint]
  simp only [htype]
  rfl

theorem Field.line_eraseTypeName (f : Field) : f.eraseTypeName.line = f.line := by
  rw [line, line, declaration, declaration, hint_eraseTypeName]
  rfl

theorem nameFields_map (params : List (String × Param)) :
    nameFields taken (params.map fun p => (p.1, p.2.eraseTypeName)) =
      (nameFields taken params).map Field.eraseTypeName := by
  rw [nameFields, nameFields, nameInTurn_map, map_nameInTurn]
  rfl

theorem fieldsOf_eraseTypeNames (e : Endpoint) :
    fieldsOf e.eraseTypeNames = (fieldsOf e).map Field.eraseTypeName := by
  have hall : nameFields reservedFields (sortParams e.eraseTypeNames.params) =
      (nameFields reservedFields (sortParams e.params)).map Field.eraseTypeName := by
    rw [← nameFields_map, sortParams, sortParams]
    exact congrArg _ (NameMap.entries_ofPairs_map Param.eraseTypeName e.params)
  rw [fieldsOf, fieldsOf, hall, List.map_append, List.filter_map, List.filter_map]
  rfl

theorem paramsClass_eraseTypeNames (e : Endpoint) :
    paramsClass e.eraseTypeNames = paramsClass e := by
  have hlines : ∀ (name : String) (fields : List Field),
      paramsClassLines name (fields.map Field.eraseTypeName) = paramsClassLines name fields := by
    intro name fields
    have hline : Field.line ∘ Field.eraseTypeName = Field.line := funext Field.line_eraseTypeName
    rw [paramsClassLines, List.isEmpty_map, List.map_map, List.map_map, hline]
    rfl
  rw [paramsClass, paramsClass, fieldsOf_eraseTypeNames]
  simp only [hlines, List.any_map]
  rfl

def PartArgument.eraseTypeName (p : PartArgument) : PartArgument :=
  { p with part := p.part.eraseTypeName }

def Function.eraseTypeNames (f : Function) : Function :=
  { f with path := f.path.eraseTypeNames, parts := f.parts.map PartArgument.eraseTypeName }

def Binding.eraseTypeNames (b : Binding) : Binding :=
  { b with functions := b.functions.map Function.eraseTypeNames }

theorem partArguments_map (parts : List PathPart) :
    partArguments taken (parts.map PathPart.eraseTypeName) =
      (partArguments taken parts).map PartArgument.eraseTypeName := by
  rw [partArguments, partArguments, nameInTurn_map, map_nameInTurn]
  rfl

theorem functionsOf_eraseTypeNames (e : Endpoint) (paths : List PathTemplate) :
    functionsOf e.eraseTypeNames cls verb taken (paths.map PathTemplate.eraseTypeNames) =
      (functionsOf e cls verb taken paths).map Function.eraseTypeNames := by
  have hnames : ∀ path : PathTemplate,
      path.eraseTypeNames.parts.map (·.name) = path.parts.map (·.name) := by
    intro path
    rw [PathTemplate.parts_eraseTypeNames, List.map_map]
    rfl
  have hmake : (fun path : PathTemplate =>
      functionOf e.eraseTypeNames cls verb path.eraseTypeNames) =
        fun path name => (functionOf e cls verb path name).eraseTypeNames := by
    funext path name
    have hrequired : e.eraseTypeNames.params.any (·.2.required) = e.params.any (·.2.required) := by
      rw [Endpoint.eraseTypeNames, List.any_map]
      rfl
    rw [functionOf, hrequired, PathTemplate.parts_eraseTypeNames, partArguments_map]
    rfl
  rw [functionsOf, functionsOf, nameInTurn_map, map_nameInTurn]
  simp only [hnames, hmake]

theorem arguments_eraseTypeNames (f : Function) : f.eraseTypeNames.arguments = f.arguments := by
  have hparts : (f.eraseTypeNames.parts.map fun p =>
        (⟨p.name, .ofType p.part.type, false⟩ : Argument)) =
      f.parts.map fun p => ⟨p.name, .ofType p.part.type, false⟩ := by
    rw [Function.eraseTypeNames, List.map_map]
    apply List.map_congr_left
    intro p _
    exact congrArg (Argument.mk p.name · false) (ofType_eraseName p.part.type)
  rw [Function.arguments, hparts]
  rfl

theorem docLines_eraseTypeNames (f : Function) : f.eraseTypeNames.docLines = f.docLines := by
  have hdocs : f.eraseTypeNames.argumentDocs = f.argumentDocs := by
    rw [Function.argumentDocs, Function.argumentDocs, Function.eraseTypeNames, List.flatMap_map]
    rfl
  rw [Function.docLines, hdocs]
  rfl

theorem keywordArguments_eraseTypeNames (f : Function) :
    f.eraseTypeNames.keywordArguments = f.keywordArguments := by
  have hmapping : f.eraseTypeNames.partsMapping = f.partsMapping := by
    rw [Function.partsMapping, Function.partsMapping, Function.eraseTypeNames, List.map_map]
    rfl
  rw [Function.keywordArguments, hmapping, Function.eraseTypeNames, List.isEmpty_map]
  rfl

theorem body_eraseTypeNames (b : Binding) : b.eraseTypeNames.body = b.body := by
  rw [Binding.body, Binding.body, Binding.eraseTypeNames, List.map_map]
  congr 1
  apply List.map_congr_left
  intro f _
  rw [Function.comp_apply, Function.render, Function.lines, arguments_eraseTypeNames,
    docLines_eraseTypeNames, keywordArguments_eraseTypeNames]
  rfl

theorem typingImports_eraseTypeNames (e : Endpoint) :
    typingImports e.eraseTypeNames = typingImports e := by
  have hparts : e.eraseTypeNames.parts = e.parts.map PathPart.eraseTypeName := by
    rw [Endpoint.parts, Endpoint.parts, Endpoint.eraseTypeNames, List.flatMap_map, List.map_flatMap]
    exact congrArg (List.flatMap · e.paths) (funext PathTemplate.parts_eraseTypeNames)
  rw [typingImports, typingImports, hparts, Endpoint.eraseTypeNames]
  simp only [List.map_map, List.flatMap_append, List.flatMap_map, Function.comp_apply,
    Param.eraseTypeName, PathPart.eraseTypeName, ofType_eraseName]

theorem bindingsOf_eraseTypeNames (e : Endpoint) :
    bindingsOf e.eraseTypeNames = (bindingsOf e).map (List.map Binding.eraseTypeNames) := by
  have hpaths : e.eraseTypeNames.paths.isEmpty = e.paths.isEmpty := List.isEmpty_map
  have hname : e.eraseTypeNames.name = e.name := rfl
  have hverbs : e.eraseTypeNames.verbs = e.verbs := rfl
  have hfunctions : ∀ cls verb, functionsOf e.eraseTypeNames cls verb [] e.eraseTypeNames.paths =
      (functionsOf e cls verb [] e.paths).map Function.eraseTypeNames :=
    fun _ _ => functionsOf_eraseTypeNames e e.paths
  rw [bindingsOf, bindingsOf, hpaths, hname, hverbs]
  simp only [hfunctions]
  cases e.name with
  | none => rfl
  | some name =>
      dsimp only
      split
      · rfl
      · split
        · rfl
        · refine congrArg Except.ok ?_
          rw [List.map_map]
          rfl

/-- A module does not tell the name of a type that is not known. -/
theorem moduleOf_eraseTypeNames (e : Endpoint) : moduleOf e.eraseTypeNames = moduleOf e := by
  have htext : ∀ bindings : List Binding,
      moduleText e.eraseTypeNames (bindings.map Binding.eraseTypeNames) =
        moduleText e bindings := by
    intro bindings
    have hlines : moduleLines e.eraseTypeNames = moduleLines e := by
      funext cls
      rw [moduleLines, typingImports_eraseTypeNames]
      rfl
    rw [moduleText, moduleText, paramsClass_eraseTypeNames, hlines, List.flatMap_map]
    simp only [body_eraseTypeNames]
  rw [moduleOf, moduleOf, emit_singleton, emit_singleton, bindingsOf_eraseTypeNames]
  cases bindingsOf e with
  | error d => rfl
  | ok bindings => exact htext bindings

end Erasure

section Order

variable {e e' : Endpoint} {ps qs : List (String × Param)}

theorem sortParams_eq_of_perm (hperm : ps.Perm qs) (hps : (ps.map (·.1)).Nodup) :
    sortParams ps = sortParams qs := by
  have hqs : (qs.map (·.1)).Nodup := (hperm.map _).nodup_iff.mp hps
  apply NameMap.entries_eq_of_mem_iff (NameMap.ordered _) (NameMap.ordered _)
  intro p
  obtain ⟨name, p⟩ := p
  rw [NameMap.mem_entries_iff, NameMap.mem_entries_iff, NameMap.get?_ofPairs_iff hps,
    NameMap.get?_ofPairs_iff hqs]
  exact hperm.mem_iff

/-- Endpoints that have the same verbs and the same parameters, in whatever order. -/
structure Rearranged (e e' : Endpoint) : Prop where
  name : e.name = e'.name
  documentation : e.documentation = e'.documentation
  verbs : ∀ v, v ∈ e.verbs ↔ v ∈ e'.verbs
  paths : e.paths = e'.paths
  params : e.params = e'.params ∨ e.params.Perm e'.params ∧ (e.params.map (·.1)).Nodup
  body : e.body = e'.body

theorem Rearranged.perm (h : Rearranged e e') : e.params.Perm e'.params := by
  rcases h.params with hparams | ⟨hperm, -⟩
  · rw [hparams]
  · exact hperm

theorem paramsClass_eq (h : Rearranged e e') : paramsClass e = paramsClass e' := by
  have hsorted : sortParams e.params = sortParams e'.params := by
    rcases h.params with hparams | ⟨hperm, hnodup⟩
    · rw [hparams]
    · exact sortParams_eq_of_perm hperm hnodup
  rw [paramsClass, paramsClass, fieldsOf, fieldsOf, hsorted, h.name]

theorem functionsOf_eq (h : Rearranged e e') (cls : String) (verb : Verb) (taken : List String)
    (paths : List PathTemplate) :
    functionsOf e cls verb taken paths = functionsOf e' cls verb taken paths := by
  have hmake : functionOf e cls verb = functionOf e' cls verb := by
    funext path name
    rw [functionOf, functionOf, h.body, h.perm.any_eq]
  rw [functionsOf, functionsOf, hmake]

theorem bindingsOf_eq_of_rearranged (h : Rearranged e e') : bindingsOf e = bindingsOf e' := by
  rw [bindingsOf, bindingsOf, h.name, h.paths, isEmpty_eq_of_mem_iff h.verbs,
    canonical_eq_of_mem_iff h.verbs]
  simp only [functionsOf_eq h]

theorem typingImports_eq_of_rearranged (h : Rearranged e e') :
    typingImports e = typingImports e' := by
  rw [typingImports, typingImports, Endpoint.parts, Endpoint.parts, h.paths]
  apply sortTypingNames_eq_of_mem_iff
  intro n
  exact (List.Perm.append_left _ (((h.perm.map _).append_right _).flatMap_right _)).mem_iff

/-- A module does not tell the order of the verbs and the parameters. -/
theorem moduleOf_eq_of_rearranged (h : Rearranged e e') : moduleOf e = moduleOf e' := by
  have htext : ∀ bindings, moduleText e bindings = moduleText e' bindings := by
    intro bindings
    have hlines : moduleLines e = moduleLines e' := by
      funext cls
      rw [moduleLines, moduleLines, documentationLines, documentationLines,
        typingImports_eq_of_rearranged h, h.name, h.documentation]
    rw [moduleText, moduleText, paramsClass_eq h, hlines]
  rw [moduleOf, moduleOf, emit_singleton, emit_singleton, bindingsOf_eq_of_rearranged h]
  simp only [htext]

end Order

section Package

variable {r r' : Registry}

/-- A package tells the names and the modules of its endpoints. -/
theorem package_eq_of_modules (hr : ∀ name e, r.get? name = some e → IsEmittable name e)
    (hr' : ∀ name e, r'.get? name = some e → IsEmittable name e)
    (hnames : r.names = r'.names)
    (hmodules : ∀ name e e', r.get? name = some e → r'.get? name = some e' →
      moduleOf e = moduleOf e') : package r = package r' := by
  have hbound : ∀ name e, r.get? name = some e → ∃ e', r'.get? name = some e' := by
    intro name e he
    exact NameMap.mem_names_iff.mp (hnames ▸ NameMap.mem_names_iff.mpr ⟨e, he⟩)
  -- Both ways a package can end are told by the modules: its files, and an integer too long.
  cases hfiles : package r with
  | ok files =>
      obtain ⟨own, rfl, hown⟩ := (package_eq_ok_iff hr).mp hfiles
      refine ((package_eq_ok_iff hr').mpr ⟨own, by rw [hnames], ?_⟩).symm
      rw [← hnames]
      refine hown.imp fun m f ⟨hfile, e, he, htext⟩ => ?_
      obtain ⟨e', he'⟩ := hbound m.endpoint e he
      exact ⟨hfile, e', he', hmodules m.endpoint e e' he he' ▸ htext⟩
  | error d =>
      obtain ⟨rfl, name, e, he, hlong⟩ := (package_eq_error_iff hr).mp hfiles
      obtain ⟨e', he'⟩ := hbound name e he
      have herror := (moduleOf_eq_error_iff (hr name e he)).mpr ⟨rfl, hlong⟩
      rw [hmodules name e e' he he'] at herror
      obtain ⟨-, hlong'⟩ := (moduleOf_eq_error_iff (hr' name e' he')).mp herror
      exact ((package_eq_error_iff hr').mpr ⟨rfl, name, e', he', hlong'⟩).symm

end Package

end Emission

end EndpointBindings
