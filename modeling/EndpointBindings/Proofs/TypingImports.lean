import EndpointBindings.Proofs.ClassFields
import EndpointBindings.Proofs.Signatures

/-!
The names that a module imports from `typing`, against those that its annotations use. Both are read
from the lines of code of the module: what an annotation spells out is the names of its type hint,
and over all fields and arguments these are the names of the types of all parameters and path parts.
-/

namespace EndpointBindings.Emission

open EndpointBindings.Naming EndpointBindings.Text

/-- The annotation of a field or an argument on a line of code: what stands behind its name and a
colon, up to a default. -/
def declaredType (line : List Char) : List Char :=
  match (line.dropWhile (· = ' ')).dropWhile (!isNameEnd ·) with
  | ':' :: ' ' :: rest => rest.takeWhile (· ≠ '=')
  | _ => []

/-- The annotation of a result on a line of code. -/
def returnedType (line : List Char) : List Char :=
  if ") -> ".toList.isPrefixOf line then (line.drop 5).takeWhile (· ≠ ':') else []

/-- The names that the annotations of fields and arguments use. -/
def declaredNames (source : String) : List String :=
  (codeLines source).flatMap fun line => lineWords (declaredType line)

/-- The names that the annotations of results use. -/
def returnedNames (source : String) : List String :=
  (codeLines source).flatMap fun line => lineWords (returnedType line)

example : declaredNames "def f(\n    a: Literal[\"b: Any\"] = None,\n):\n    \"\"\"c: Any\"\"\"" =
    ["Literal"] := by
  decide

/-- The names of types that need no import. -/
def builtinTypes : List String := ["str", "bool", "int", "float"]

section Hints

variable {hint : TypeHint} {n name : String} {c : Char} {cs rest : List Char} {t : ValueType}
  {f : Field} {g : Function} {a : Argument}

namespace TypeHint

/-- The names that a type hint is written with. -/
def names : TypeHint → List String
  | str => ["str"]
  | bool => ["bool"]
  | int => ["int"]
  | float => ["float"]
  | any => ["Any"]
  | textSequence => ["Sequence", "str"]
  | literal _ => ["Literal"]
  | named name => [name]
  | optional inner => "Optional" :: inner.names

/-- A hint in which a class is given by a name. -/
def IsWorded : TypeHint → Prop
  | named name => IsNameText name ∧ name ≠ ""
  | optional inner => inner.IsWorded
  | _ => True

theorem IsWorded.isSafe (h : hint.IsWorded) : hint.IsSafe := by
  induction hint with
  | named name => exact h.1.isBare
  | optional inner ih => exact ih h
  | _ => trivial

theorem mem_names_of_mem_typingNames (h : n ∈ hint.typingNames) : n ∈ hint.names := by
  induction hint with
  | optional inner ih =>
      rcases List.mem_cons.mp h with rfl | h
      · exact List.mem_cons_self
      · exact List.mem_cons_of_mem _ (ih h)
  | textSequence => exact List.mem_cons.mpr (.inl (List.mem_singleton.mp h))
  | any | literal => exact h
  | str | bool | int | float | named => exact absurd h List.not_mem_nil

end TypeHint

theorem lineWords_signs (h : ∀ c ∈ cs, isNameEnd c = true) :
    lineWords (cs ++ rest) = lineWords rest := by
  induction cs with
  | nil => rfl
  | cons c more ih =>
      obtain ⟨hc, hmore⟩ := List.forall_mem_cons.mp h
      rw [List.cons_append, lineWords_cons hc, ih hmore]

theorem lineWords_append_sign (hc : isNameEnd c = true) : lineWords (cs ++ [c]) = lineWords cs := by
  rw [lineWords_append hc]
  exact List.append_nil _

/-- A type hint is written with its names, whatever the options of a literal. -/
theorem lineWords_render (h : hint.IsWorded) : lineWords (codeOf hint.render) = hint.names := by
  induction hint with
  | str | bool | int | float | any | textSequence => decide
  | literal options =>
      have hlist : (TypeHint.literal options).render.toList = "Literal[".toList ++
          ((", ".intercalate (options.map Escaped.ascii)).toList ++ [']']) := by
        simp [TypeHint.render]
      obtain ⟨signs, hsigns, hskeleton⟩ := @skeletonFrom_code_texts [']'] options (by simp)
      have hwords : lineWords ("Literal".toList ++ '[' :: (signs ++ [']'])) = ["Literal"] := by
        rw [lineWords_append (by decide), lineWords_signs fun c hc => (hsigns c hc).1]
        decide
      rw [codeOf, hlist, skeletonFrom_code_bare (by decide), hskeleton]
      exact hwords
  | named name =>
      rw [TypeHint.render, codeOf_bare h.1.isBare, lineWords_name h.1 h.2, TypeHint.names]
  | optional inner ih =>
      have hlist : (TypeHint.optional inner).render.toList =
          "Optional[".toList ++ (inner.render.toList ++ [']']) := by
        simp [TypeHint.render]
      have hwords : lineWords ("Optional".toList ++ '[' :: (codeOf inner.render ++ [']'])) =
          "Optional" :: lineWords (codeOf inner.render) := by
        rw [lineWords_append (by decide), lineWords_append_sign (by decide)]
        rfl
      have hsafe : inner.IsSafe := TypeHint.IsWorded.isSafe h
      rw [codeOf, hlist, skeletonFrom_code_bare (by decide),
        (oneLine_render hsafe).skeletonFrom_append, TypeHint.names, ← ih h]
      exact hwords

theorem isWorded_ofType : (TypeHint.ofType t).IsWorded := by
  cases t with
  | number kind =>
      rw [TypeHint.ofType]
      split <;> trivial
  | _ => trivial

theorem isWorded_fieldHint : f.hint.IsWorded := by
  rw [Field.hint]
  split
  · exact isWorded_ofType
  · exact @isWorded_ofType f.param.type

/-- The hint of a type needs an import for each of its names that is not built in. -/
theorem mem_typingNames_ofType (h : n ∈ (TypeHint.ofType t).names) :
    n ∈ (TypeHint.ofType t).typingNames ∨ n ∈ builtinTypes := by
  cases t with
  | string | time | boolean =>
      obtain rfl := List.mem_singleton.mp h
      exact .inr (by decide)
  | list =>
      rcases List.mem_pair.mp h with rfl | rfl
      · exact .inl List.mem_cons_self
      · exact .inr (by decide)
  | number kind =>
      rw [TypeHint.ofType] at h
      split at h
      · obtain rfl := List.mem_singleton.mp h
        exact .inr (by decide)
      · obtain rfl := List.mem_singleton.mp h
        exact .inr (by decide)
  | choice options => exact .inl h
  | other name => exact .inl h

theorem typingNames_ofType_subset :
    (TypeHint.ofType t).typingNames ⊆ ["Any", "Literal", "Sequence"] := by
  cases t with
  | number kind =>
      rw [TypeHint.ofType]
      split <;> exact List.nil_subset _
  | string | time | boolean => exact List.nil_subset _
  | list => exact (by decide : ["Sequence"] ⊆ ["Any", "Literal", "Sequence"])
  | choice options => exact (by decide : ["Literal"] ⊆ ["Any", "Literal", "Sequence"])
  | other name => exact (by decide : ["Any"] ⊆ ["Any", "Literal", "Sequence"])

/-- A field is annotated with its type, or with what may be left out of it. -/
theorem mem_fieldHint_names : n ∈ f.hint.names →
    n = "Optional" ∨ n ∈ (TypeHint.ofType f.param.type).names := by
  intro h
  rw [Field.hint] at h
  split at h
  · exact .inr h
  · exact List.mem_cons.mp h

theorem mem_names_fieldHint (h : n ∈ (TypeHint.ofType f.param.type).names) :
    n ∈ f.hint.names := by
  rw [Field.hint]
  split
  · exact h
  · exact List.mem_cons_of_mem _ h

theorem isWorded_argumentHint (h : g.IsNamed) (hcls : g.paramsClass ≠ "") (ha : a ∈ g.arguments) :
    a.hint.IsWorded := by
  have hletters : "Transport".toList.all Char.isAlphanum = true := by decide
  rcases mem_arguments_iff.mp ha with rfl | ⟨p, -, rfl⟩ | ⟨-, rfl⟩ | rfl
  · exact ⟨fun c hc => .inl (List.all_eq_true.mp hletters c hc), by decide⟩
  · exact isWorded_ofType
  · trivial
  · split <;> exact ⟨h.paramsClass, hcls⟩

end Hints

section Lines

variable {name k : String} {rest hint : List Char} {c : Char} {f : Field} {g : Function}
  {a : Argument} {e : Endpoint} {fields : List Field}

theorem declaredType_named (h : IsIdentifier name) (rest : List Char) :
    declaredType ("    ".toList ++ (name.toList ++ ':' :: ' ' :: rest)) =
      rest.takeWhile (· ≠ '=') := by
  obtain ⟨c, more, hc, hstart⟩ := h.start
  have hblank : c ≠ ' ' := by
    rintro rfl
    rcases hstart with hstart | hstart <;> exact absurd hstart (by decide)
  have hblanks : ∀ d ∈ "    ".toList, decide (d = ' ') = true := by simp
  have hindent : ("    ".toList ++ (name.toList ++ ':' :: ' ' :: rest)).dropWhile (· = ' ') =
      name.toList ++ ':' :: ' ' :: rest := by
    rw [List.dropWhile_append_of_pos hblanks, hc, List.cons_append,
      List.dropWhile_cons_of_neg (by simpa using hblank)]
  rw [declaredType, hindent, (span_name h.chars (by decide) _).2]
  rfl

theorem takeWhile_hint (h : '=' ∉ hint) :
    (hint ++ rest).takeWhile (· ≠ '=') = hint ++ rest.takeWhile (· ≠ '=') := by
  apply List.takeWhile_append_of_pos
  intro c hc
  exact decide_eq_true (ne_of_mem_of_not_mem hc h)

/-- The names that the annotation on a line uses. -/
def declaredOn (line : String) : List String := lineWords (declaredType (codeOf line))

theorem declaredOn_line (h : IsIdentifier f.name) : declaredOn f.line = f.hint.names := by
  have hline : codeOf f.line = "    ".toList ++ (f.name.toList ++ ':' :: ' ' ::
      (codeOf f.hint.render ++ ' ' :: '=' :: (" dataclasses.field(".toList ++
        codeOf (f.defaultArgument ++ (f.metadata ++ ")"))))) := skeletonFrom_code_line_eq h.chars
  have hend : ∀ r, (' ' :: '=' :: r).takeWhile (· ≠ '=') = [' '] := fun r => rfl
  have hequals : '=' ∉ codeOf f.hint.render := equals_notMem_hint
  rw [declaredOn, hline, declaredType_named h, takeWhile_hint hequals, hend,
    lineWords_append_sign (by decide), lineWords_render isWorded_fieldHint]

theorem declaredOn_argumentLine (h : g.IsNamed) (hcls : g.paramsClass ≠ "") (ha : a ∈ g.arguments)
    (hname : IsIdentifier a.name) : declaredOn (argumentLine a) = a.hint.names := by
  obtain ⟨hbare, hsafe⟩ := h.of_mem_arguments ha
  have hequals : '=' ∉ codeOf a.hint.render := equals_notMem_argumentHint h ha
  have hworded := isWorded_argumentHint h hcls ha
  have hlist : (argumentLine a).toList = "    ".toList ++ (a.name.toList ++ (": ".toList ++
      (a.hint.render.toList ++ ((if a.hasDefault then " = None" else "") ++ ",").toList))) := by
    simp [argumentLine, Argument.render]
  have hrest : IsBare ((if a.hasDefault then " = None" else "") ++ ",") := by split <;> decide
  have hline : codeOf (argumentLine a) = "    ".toList ++ (a.name.toList ++ ':' :: ' ' ::
      (codeOf a.hint.render ++ ((if a.hasDefault then " = None" else "") ++ ",").toList)) := by
    rw [codeOf, hlist, skeletonFrom_code_bare (by decide), skeletonFrom_code_bare hbare,
      skeletonFrom_code_bare (by decide), (oneLine_render hsafe).skeletonFrom_append]
    exact congrArg _ (congrArg _ (congrArg _ (congrArg _ (codeOf_bare hrest))))
  have hend : ∃ c, (((if a.hasDefault then " = None" else "") ++ ",").toList).takeWhile (· ≠ '=') =
      [c] ∧ isNameEnd c = true := by
    cases a.hasDefault with
    | true => exact ⟨' ', by decide⟩
    | false => exact ⟨',', by decide⟩
  obtain ⟨c, hend, hc⟩ := hend
  rw [declaredOn, hline, declaredType_named hname, takeWhile_hint hequals, hend,
    lineWords_append_sign hc, lineWords_render hworded]

theorem declaredOn_keywordLine {label : String} (h : label ∈ ["parts=", "serialize="])
    (text : String) : declaredOn (keywordLine (label ++ text)) = [] := by
  have hline : keywordLine (label ++ text) = "        " ++ label ++ (text ++ ",") := by
    simp only [keywordLine, String.append_assoc]
  have hbare : ∀ label ∈ ["parts=", "serialize="], IsBare ("        " ++ label) := by decide
  rw [declaredOn, hline, codeOf_append (hbare label h)]
  rcases List.mem_pair.mp h with rfl | rfl <;> rfl

/-- A keyword argument is no declaration, and neither is a literal. -/
theorem declaredOn_of_mem_bodyCode {line : String} (hline : line ∈ g.bodyCode) :
    declaredOn line = [] := by
  have hliteral : ∀ text, declaredOn (keywordLine ("" ++ Escaped.ascii text)) = [] := by
    intro text
    have hlist : (keywordLine ("" ++ Escaped.ascii text)).toList =
        "        ".toList ++ ((Escaped.ascii text).toList ++ [',']) := by
      simp [keywordLine]
    rw [declaredOn, codeOf, hlist, skeletonFrom_code_bare (by decide),
      skeletonFrom_code_ascii (by simp)]
    rfl
  have hkeyword : ∀ k ∈ g.keywordArguments, declaredOn (keywordLine k) = [] := by
    intro k hk
    rcases eq_of_mem_keywordArguments hk with rfl | rfl | rfl | ⟨hint, rfl⟩
    · exact declaredOn_keywordLine List.mem_cons_self g.partsMapping
    · decide
    · decide
    · exact declaredOn_keywordLine (List.mem_cons_of_mem _ List.mem_cons_self) _
  have hends : ∀ line ∈ ["    return transport.request(", "    )"], declaredOn line = [] := by
    decide
  rcases eq_of_mem_bodyCode hline with hline | ⟨text, rfl⟩ | ⟨k, hk, rfl⟩
  · exact hends line hline
  · exact hliteral text
  · exact hkeyword k hk

theorem declaredOn_head : declaredOn g.head = [] := by
  rw [declaredOn, Function.head, String.append_assoc, codeOf_append (by decide)]
  rfl

theorem declaredOn_classLine : declaredOn ("class " ++ className name ++ ":") = [] := by
  rw [declaredOn, String.append_assoc, codeOf_append (by decide)]
  rfl

theorem declaredOn_typingLine : declaredOn (typingLine e) = [] := by
  have hword : IsBare "from typing import " := by decide
  have hline : codeOf (typingLine e) = "from typing import ".toList ++
      codeOf (", ".intercalate (typingImports e)) := codeOf_append hword
  rw [declaredOn, hline]
  rfl

theorem flatMap_declaredOn_function (h : g.IsNamed) (hcls : g.paramsClass ≠ "")
    (hnames : ∀ a ∈ g.arguments, IsIdentifier a.name) :
    (["", ""] ++ g.code).flatMap declaredOn = g.arguments.flatMap (·.hint.names) := by
  have hgap : (["", ""] : List String).flatMap declaredOn = [] := by decide
  have hhead : [g.head].flatMap declaredOn = [] := by
    rw [List.flatMap_singleton, declaredOn_head]
  have hreturns : [") -> Any:"].flatMap declaredOn = [] := by decide
  have hdocstring : ["    \"\"\"\"\"\""].flatMap declaredOn = [] := by decide
  have hbody : g.bodyCode.flatMap declaredOn = [] :=
    List.flatMap_eq_nil_iff.mpr fun line => declaredOn_of_mem_bodyCode
  have harguments : (g.arguments.map argumentLine).flatMap declaredOn =
      g.arguments.flatMap (·.hint.names) := by
    rw [List.flatMap_map]
    exact List.flatMap_congr fun a ha => declaredOn_argumentLine h hcls ha (hnames a ha)
  rw [Function.code]
  simp only [List.flatMap_append, hgap, hhead, hreturns, hdocstring, hbody, harguments,
    List.append_nil, List.nil_append]

theorem flatMap_declaredOn_class (h : ∀ f ∈ fields, IsIdentifier f.name) :
    (classCode name fields).flatMap declaredOn = fields.flatMap (·.hint.names) := by
  have hhead : (["@dataclasses.dataclass(frozen=True)"] : List String).flatMap declaredOn = [] := by
    decide
  have hclass : ["class " ++ className name ++ ":"].flatMap declaredOn = [] := by
    rw [List.flatMap_singleton, declaredOn_classLine]
  have hdocstring : ["    \"\"\"\"\"\""].flatMap declaredOn = [] := by decide
  have hfields : (fieldLines fields).flatMap declaredOn = fields.flatMap (·.hint.names) := by
    unfold fieldLines
    split
    · rename_i hempty
      rw [List.isEmpty_iff.mp hempty]
      rfl
    · have hempty : declaredOn "" = [] := by decide
      rw [List.flatMap_cons, hempty, List.nil_append, List.flatMap_map]
      exact List.flatMap_congr fun f hf => declaredOn_line (h f hf)
  have hcode : classCode name fields = ["@dataclasses.dataclass(frozen=True)"] ++
      ["class " ++ className name ++ ":"] ++ ["    \"\"\"\"\"\""] ++ fieldLines fields := rfl
  rw [hcode]
  simp only [List.flatMap_append, hhead, hclass, hdocstring, hfields, List.nil_append]

end Lines

section Modules

variable {n name text : String} {e : Endpoint} {f : Field} {g : Function} {a : Argument}
  {t : ValueType} {lines code : List String} {line : List Char}

theorem HasCode.declaredNames_eq (h : HasCode lines code) :
    declaredNames (endLines lines) = code.flatMap declaredOn := by
  rw [declaredNames, h.codeLines_eq, List.flatMap_append, List.flatMap_map]
  exact List.append_nil _

theorem of_mem_functionsFor_planned (hg : g ∈ functionsFor name e) :
    g.IsPlanned e ∧ g.paramsClass = className name := by
  have hnamed := isNamed_of_mem_functionsFor hg
  obtain ⟨verb, -, hg⟩ := List.mem_flatMap.mp hg
  obtain ⟨hpath, hparts⟩ := parts_of_mem_functionsOf hg
  exact ⟨⟨hnamed, hpath, hparts⟩, paramsClass_of_mem_functionsOf hg⟩

/-- The annotations of a module use the names of the hints of its fields and arguments. -/
theorem declaredNames_moduleOf (h : IsEmittable name e) (htext : moduleOf e = .ok text) :
    declaredNames text = (fieldsOf e).flatMap (·.hint.names) ++
      (functionsFor name e).flatMap fun g => g.arguments.flatMap (·.hint.names) := by
  obtain ⟨lines, rfl, hcode⟩ := hasCode_moduleOf h htext
  have hdocstring : ["\"\"\"\"\"\""].flatMap declaredOn = [] := by decide
  have himports : (importLines e).flatMap declaredOn = [] := by
    have hbefore : (["", "from __future__ import annotations", "", "import dataclasses"] :
        List String).flatMap declaredOn = [] := by decide
    have hafter : (["", "from ." ++ transportModule ++ " import Transport", "", ""] :
        List String).flatMap declaredOn = [] := by decide
    rw [importLines_eq, List.flatMap_append, List.flatMap_append, hbefore, hafter,
      List.flatMap_singleton, declaredOn_typingLine]
    rfl
  have hclass := @flatMap_declaredOn_class name (fieldsOf e) fun f hf =>
    (isIdentifier_of_mem_fieldsOf hf).1
  have hfunctions : ((functionsFor name e).flatMap fun g => ["", ""] ++ g.code).flatMap declaredOn =
      (functionsFor name e).flatMap fun g => g.arguments.flatMap (·.hint.names) := by
    rw [List.flatMap_assoc]
    apply List.flatMap_congr
    intro g hg
    obtain ⟨hplanned, hcls⟩ := of_mem_functionsFor_planned hg
    have hparts : ∀ p ∈ g.parts, IsIdentifier p.name := fun p hp =>
      isIdentifier_of_mem_partArguments (hplanned.parts ▸ hp)
    exact flatMap_declaredOn_function hplanned.named (hcls ▸ className_ne_empty)
      fun a ha => isIdentifier_of_mem_arguments hparts ha
  rw [hcode.declaredNames_eq, moduleCode]
  simp only [List.flatMap_append, hdocstring, himports, hclass, hfunctions, List.nil_append]

/-- The types of the parameters and of the path parts of an endpoint. -/
def valueTypes (e : Endpoint) : List ValueType :=
  e.params.map (·.2.type) ++ e.parts.map (·.type)

theorem mem_typingImports_iff : n ∈ typingImports e ↔ n = "Any" ∨ n = "Optional" ∨
    ∃ t ∈ valueTypes e, n ∈ (TypeHint.ofType t).typingNames := by
  have hnames : n ∈ ["Any", "Optional"] ++
      (valueTypes e).flatMap (fun t => (TypeHint.ofType t).typingNames) ↔
        n = "Any" ∨ n = "Optional" ∨ ∃ t ∈ valueTypes e, n ∈ (TypeHint.ofType t).typingNames := by
    rw [List.mem_append, List.mem_pair, List.mem_flatMap, or_assoc]
  have hordered : (n = "Any" ∨ n = "Optional" ∨
      ∃ t ∈ valueTypes e, n ∈ (TypeHint.ofType t).typingNames) → n ∈ typingOrder := by
    rintro (rfl | rfl | ⟨t, -, hn⟩)
    · decide
    · decide
    · have hsubset : ["Any", "Literal", "Sequence"] ⊆ typingOrder := by decide
      exact hsubset (typingNames_ofType_subset hn)
  rw [typingImports, sortTypingNames, List.mem_filter, decide_eq_true_eq]
  exact (and_congr_right fun _ => hnames).trans (and_iff_right_of_imp hordered)

theorem pairwise_typingImports : (typingImports e).Pairwise (· < ·) := by
  have hordered : typingOrder.Pairwise (· < ·) := by decide
  rw [typingImports, sortTypingNames]
  exact hordered.filter _

/-- A name that an annotation uses is that of a class, or comes from a type. -/
theorem of_mem_declaredNames (h : IsEmittable name e) (htext : moduleOf e = .ok text)
    (hn : n ∈ declaredNames text) : n = "Any" ∨ n = "Optional" ∨ n = "Transport" ∨
      n = className name ∨ ∃ t ∈ valueTypes e, n ∈ (TypeHint.ofType t).names := by
  rw [declaredNames_moduleOf h htext, List.mem_append, List.mem_flatMap, List.mem_flatMap] at hn
  rcases hn with ⟨f, hf, hn⟩ | ⟨g, hg, hn⟩
  · have hparam : (f.wire, f.param) ∈ e.params :=
      NameMap.mem_of_mem_ofPairs (of_mem_nameFields (mem_fieldsOf_iff.mp hf))
    have htype : f.param.type ∈ valueTypes e :=
      List.mem_append_left _ (List.mem_map.mpr ⟨_, hparam, rfl⟩)
    rcases mem_fieldHint_names hn with rfl | hn
    · exact .inr (.inl rfl)
    · exact .inr (.inr (.inr (.inr ⟨_, htype, hn⟩)))
  · obtain ⟨a, ha, hn⟩ := List.mem_flatMap.mp hn
    obtain ⟨hplanned, hcls⟩ := of_mem_functionsFor_planned hg
    rcases mem_arguments_iff.mp ha with rfl | ⟨p, hp, rfl⟩ | ⟨-, rfl⟩ | rfl
    · exact .inr (.inr (.inl (List.mem_singleton.mp hn)))
    · have hpart : p.part ∈ g.path.parts := by
        rw [← @partArguments_parts reservedArguments g.path.parts, ← hplanned.parts]
        exact List.mem_map_of_mem hp
      have htype : p.part.type ∈ valueTypes e := List.mem_append_right _
        (List.mem_map_of_mem (List.mem_flatMap.mpr ⟨g.path, hplanned.path, hpart⟩))
      exact .inr (.inr (.inr (.inr ⟨_, htype, hn⟩)))
    · exact .inl (List.mem_singleton.mp hn)
    · split at hn
      · exact .inr (.inr (.inr (.inl ((List.mem_singleton.mp hn).trans hcls))))
      · rcases List.mem_pair.mp hn with rfl | rfl
        · exact .inr (.inl rfl)
        · exact .inr (.inr (.inr (.inl hcls)))

/-- Every type of a parameter or of a path part is written in an annotation. -/
theorem mem_declaredNames (h : IsEmittable name e) (hparams : (e.params.map (·.1)).Nodup)
    (htext : moduleOf e = .ok text) (ht : t ∈ valueTypes e) (hn : n ∈ (TypeHint.ofType t).names) :
    n ∈ declaredNames text := by
  rw [declaredNames_moduleOf h htext, List.mem_append, List.mem_flatMap, List.mem_flatMap]
  rcases List.mem_append.mp ht with ht | ht
  · obtain ⟨⟨wire, p⟩, hp, rfl⟩ := List.mem_map.mp ht
    have hsorted : (wire, p) ∈ sortParams e.params :=
      NameMap.mem_entries_iff.mpr ((NameMap.get?_ofPairs_iff hparams).mpr hp)
    obtain ⟨f, hf, -, rfl⟩ := exists_field_of_mem reservedFields hsorted
    exact .inl ⟨f, mem_fieldsOf_iff.mpr hf, mem_names_fieldHint hn⟩
  · obtain ⟨part, hpart, rfl⟩ := List.mem_map.mp ht
    obtain ⟨path, hpath, hpart⟩ := List.mem_flatMap.mp hpart
    obtain ⟨verb, hverb⟩ := List.exists_mem_of_ne_nil _ h.2.1
    rw [← @functionsOf_paths e (className name) verb [] e.paths] at hpath
    obtain ⟨g, hg, rfl⟩ := List.mem_map.mp hpath
    rw [← @partArguments_parts reservedArguments g.path.parts,
      ← (parts_of_mem_functionsOf hg).2] at hpart
    obtain ⟨p, hp, rfl⟩ := List.mem_map.mp hpart
    have hargument := mem_arguments_iff.mpr (.inr (.inl ⟨p, hp, rfl⟩))
    have hfunction : g ∈ functionsFor name e :=
      List.mem_flatMap.mpr ⟨verb, Verb.mem_canonical.mpr hverb, hg⟩
    exact .inr ⟨g, hfunction, List.mem_flatMap.mpr ⟨_, hargument, hn⟩⟩

/-- Every function gives `Any`. -/
theorem eq_of_mem_returnedNames (h : IsEmittable name e) (htext : moduleOf e = .ok text)
    (hn : n ∈ returnedNames text) : n = "Any" := by
  obtain ⟨lines, rfl, hcode⟩ := hasCode_moduleOf h htext
  obtain ⟨line, hline, hn⟩ := List.mem_flatMap.mp hn
  have hreturns : ") -> ".toList.isPrefixOf line = true := by
    by_contra hother
    have hnil : lineWords [] = [] := rfl
    rw [returnedType, if_neg hother, hnil] at hn
    exact absurd hn List.not_mem_nil
  have hmem : line ∈ (moduleCode name e (functionsFor name e)).map codeOf := by
    rw [hcode.codeLines_eq] at hline
    refine (List.mem_append.mp hline).resolve_right fun hempty => ?_
    rw [List.mem_singleton.mp hempty] at hreturns
    exact absurd hreturns (by decide)
  -- The only line at the margin that starts like this is the same in every function.
  have hline : line = ") -> Any:".toList := by
    by_contra hne
    have hother : line ∈ ((moduleCode name e (functionsFor name e)).map codeOf).filter fun line =>
        ") -> ".toList.isPrefixOf line && line ≠ ") -> Any:".toList :=
      List.mem_filter.mpr ⟨hmem, by rw [hreturns, decide_eq_true hne, Bool.and_self]⟩
    rw [filter_moduleCode (fun _ => rfl) (by decide) fun f => isNamed_of_mem_functionsFor] at hother
    obtain ⟨l, hl, rfl⟩ := List.mem_map.mp (List.mem_filter.mp hother).1
    rcases List.mem_append.mp hl with hl | hl
    · rcases List.mem_pair.mp hl with rfl | rfl
      · exact absurd hreturns (Bool.eq_false_iff.mp ((isPrefixOf_typingLine _ e).trans rfl))
      · exact absurd hreturns (Bool.eq_false_iff.mp ((isPrefixOf_classLine _ name).trans rfl))
    · obtain ⟨g, -, rfl⟩ := List.mem_map.mp hl
      exact absurd hreturns (Bool.eq_false_iff.mp ((isPrefixOf_head _ g).trans rfl))
  have hnames : lineWords (returnedType ") -> Any:".toList) = ["Any"] := by decide
  rw [hline, hnames] at hn
  exact List.mem_singleton.mp hn

theorem className_ne (h : n.toList.getLast? ≠ some 's') : n ≠ className name := by
  rintro rfl
  rw [toList_className, List.getLast?_append] at h
  exact h rfl

/-- `Literal` and `Sequence` are imported exactly when an annotation uses them. -/
theorem mem_typingImports_iff_declared (h : IsEmittable name e)
    (hparams : (e.params.map (·.1)).Nodup) (htext : moduleOf e = .ok text) :
    n ∈ typingImports e ↔ n = "Any" ∨ n = "Optional" ∨
      (n = "Literal" ∨ n = "Sequence") ∧ n ∈ declaredNames text := by
  rw [mem_typingImports_iff]
  refine or_congr_right' fun hany => or_congr_right' fun hoptional => ⟨?_, ?_⟩
  · rintro ⟨t, ht, hn⟩
    have hname := typingNames_ofType_subset hn
    simp only [List.mem_cons, List.not_mem_nil, or_false] at hname
    exact ⟨hname.resolve_left hany,
      mem_declaredNames h hparams htext ht (TypeHint.mem_names_of_mem_typingNames hn)⟩
  · rintro ⟨hname, hn⟩
    have hother : n ≠ "Transport" ∧ n ∉ builtinTypes ∧ n ≠ className name := by
      rcases hname with rfl | rfl <;> exact ⟨by decide, by decide, className_ne (by decide)⟩
    rcases of_mem_declaredNames h htext hn with hn | hn | hn | hn | ⟨t, ht, hn⟩
    · exact absurd hn hany
    · exact absurd hn hoptional
    · exact absurd hn hother.1
    · exact absurd hn hother.2.2
    · exact ⟨t, ht, (mem_typingNames_ofType hn).resolve_right hother.2.1⟩

/-- An annotation uses what is imported, and besides it the names of builtin types, of the transport
and of the class of parameters. -/
theorem mem_typingImports_of_declared (h : IsEmittable name e) (htext : moduleOf e = .ok text)
    (hn : n ∈ declaredNames text) : n ∈ typingImports e ∨ n ∈ builtinTypes ∨ n = "Transport" ∨
      n = className name := by
  rw [mem_typingImports_iff]
  rcases of_mem_declaredNames h htext hn with hn | hn | hn | hn | ⟨t, ht, hn⟩
  · exact .inl (.inl hn)
  · exact .inl (.inr (.inl hn))
  · exact .inr (.inr (.inl hn))
  · exact .inr (.inr (.inr hn))
  · exact (mem_typingNames_ofType hn).imp (fun hn => .inr (.inr ⟨t, ht, hn⟩)) .inl

/-- A module imports from `typing`, in order and each once, `Any` and `Optional`, and of the other
two names those that an annotation of a field or an argument uses. No annotation uses any other name
but those of builtin types, of the transport and of the class of parameters. -/
theorem typing_imports_are_used_types (h : IsEmittable name e)
    (hparams : (e.params.map (·.1)).Nodup) :
    (¬HasLongDefault e → ∃ text, moduleOf e = .ok text) ∧
      ∀ text, moduleOf e = .ok text → ∃ line, linesFrom "from typing " text = [line] ∧
        line = "from typing import " ++ ", ".intercalate (boundBy line) ∧
        (boundBy line).Pairwise (· < ·) ∧
        (∀ n, n ∈ boundBy line ↔ n = "Any" ∨ n = "Optional" ∨
          (n = "Literal" ∨ n = "Sequence") ∧ n ∈ declaredNames text) ∧
        ∀ n ∈ declaredNames text ++ returnedNames text,
          n ∈ boundBy line ∨ n ∈ builtinTypes ∨ n = "Transport" ∨ n = className name := by
  constructor
  · intro hshort
    cases hmodule : moduleOf e with
    | error d => exact absurd ((moduleOf_eq_error_iff h).mp hmodule).2 hshort
    | ok text => exact ⟨text, rfl⟩
  · intro text htext
    refine ⟨typingLine e, linesFrom_typing h htext, ?_⟩
    rw [boundBy_typingLine]
    refine ⟨rfl, pairwise_typingImports, fun n => mem_typingImports_iff_declared h hparams htext,
      fun n hn => ?_⟩
    rcases List.mem_append.mp hn with hn | hn
    · exact mem_typingImports_of_declared h htext hn
    · exact .inl (mem_typingImports_iff.mpr (.inl (eq_of_mem_returnedNames h htext hn)))

/-- An endpoint with a list as its parameter, whose description reads like an annotation. -/
def listedEndpoint : Endpoint :=
  { name := some "listed", documentation := none, verbs := [.get]
    paths := [⟨"/", [.literal "/"]⟩]
    params := [("fields", ⟨.list, false, none, some "a: Literal[]"⟩)], body := none }

theorem typing_imports_are_used_types_listed : ∃ text line, moduleOf listedEndpoint = .ok text ∧
    linesFrom "from typing " text = [line] ∧ boundBy line = ["Any", "Optional", "Sequence"] ∧
    "Sequence" ∈ declaredNames text ∧ "Literal" ∉ declaredNames text := by
  have hemittable : IsEmittable "listed" listedEndpoint := ⟨rfl, by decide, by decide⟩
  have hshort : ¬HasLongDefault listedEndpoint := by
    rw [HasLongDefault]
    decide +kernel
  obtain ⟨hexists, himports⟩ := typing_imports_are_used_types hemittable (by decide)
  obtain ⟨text, htext⟩ := hexists hshort
  obtain ⟨line, hline, -, -, hnames, -⟩ := himports text htext
  have hbound : boundBy line = ["Any", "Optional", "Sequence"] := by
    rw [linesFrom_typing hemittable htext] at hline
    rw [← List.singleton_inj.mp hline, boundBy_typingLine]
    decide
  rw [hbound] at hnames
  have hliteral : "Literal" ∉ declaredNames text := fun hmem =>
    absurd ((hnames "Literal").mpr (.inr (.inr ⟨.inl rfl, hmem⟩))) (by decide)
  have hsequence : "Sequence" ∈ declaredNames text := by
    rcases (hnames "Sequence").mp (by decide) with hn | hn | hn
    · exact absurd hn (by decide)
    · exact absurd hn (by decide)
    · exact hn.2
  exact ⟨text, line, htext, hline, hbound, hsequence, hliteral⟩

end Modules

end EndpointBindings.Emission
