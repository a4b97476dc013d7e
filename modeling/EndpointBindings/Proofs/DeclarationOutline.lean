import EndpointBindings.Proofs.ClassSkeleton
import EndpointBindings.Proofs.FunctionSkeleton
import EndpointBindings.Proofs.SourceOutline

/-!
The code of classes and functions, line by line. Names are made of the characters of identifiers
and texts stand in literals, so a declaration has the lines of code that were planned for it.
-/

namespace EndpointBindings.Emission

open EndpointBindings.Naming EndpointBindings.Text

section Classes

variable {f : Field} {fields : List Field} {e : Endpoint} {endpoint : String}

theorem oneLine_metadata (f : Field) : OneLine f.metadata := by
  have hbrace : IsBare "metadata=\x7b" := by decide
  have hkey := (hbrace.oneLine.append_before (oneLineBefore_ascii "wire")).append
    (by decide : IsBare ": ") (by decide)
  rw [Field.metadata_eq]
  exact (hkey.append_before (oneLineBefore_ascii _)).append (by decide) (by decide)

theorem oneLine_defaultArgument (f : Field) : OneLine f.defaultArgument := by
  have hlabel : IsBare "default=" := by decide
  have hnone : IsBare "default=None, " := by decide
  rw [Field.defaultArgument, Field.defaultText?]
  cases f.param.required with
  | true => exact IsBare.oneLine (a := "") (by decide)
  | false =>
      cases f.param.default with
      | none => exact hnone.oneLine
      | some d =>
          exact (hlabel.oneLine.append_before (oneLineBefore_literal d)).append (by decide)
            (by decide)

theorem isSafe_fieldHint : f.hint.IsSafe := by
  rw [Field.hint]
  split
  · exact isSafe_ofType
  · exact @isSafe_ofType f.param.type

/-- The line of a field behind its indentation. -/
def Field.code (f : Field) : String :=
  f.name ++ ": " ++
    (f.hint.render ++ " = dataclasses.field(" ++ f.defaultArgument ++ f.metadata ++ ")")

theorem Field.line_eq (f : Field) : f.line = "    " ++ f.code := by
  have hline : f.line = "    " ++ f.name ++ ": " ++ (f.hint.render ++ " = dataclasses.field(" ++
      f.defaultArgument ++ f.metadata ++ ")") := rfl
  rw [hline, Field.code]
  simp only [String.append_assoc]

theorem oneLine_code (h : IsNameText f.name) : OneLine f.code := by
  have hcolon : IsBare ": " := by decide
  have hcall : IsBare " = dataclasses.field(" := by decide
  have hclose : IsBare ")" := by decide
  have hhint : OneLine f.hint.render := oneLine_render isSafe_fieldHint
  have hcallee := (hhint.append hcall.oneLine).append (oneLine_defaultArgument f)
  exact (h.isBare.append hcolon).oneLine.append
    ((hcallee.append (oneLine_metadata f)).append hclose.oneLine)

theorem eq_of_mem_fieldLines {line : String} (h : line ∈ fieldLines fields) :
    line = "" ∨ ∃ f ∈ fields, line = f.line := by
  unfold fieldLines at h
  split at h
  · exact absurd h List.not_mem_nil
  · refine (List.mem_cons.mp h).imp_right fun h => ?_
    obtain ⟨f, hf, rfl⟩ := List.mem_map.mp h
    exact ⟨f, hf, rfl⟩

theorem isBare_classLine (name : String) : IsBare ("class " ++ className name ++ ":") :=
  ((by decide : IsBare "class ").append isNameText_className.isBare).append (by decide)

theorem oneLine_line (h : IsNameText f.name) : OneLine f.line := by
  rw [Field.line_eq]
  exact (by decide : IsBare "    ").oneLine.append (oneLine_code h)

/-- The lines of code of the class of an endpoint. -/
def classCode (endpoint : String) (fields : List Field) : List String :=
  ["@dataclasses.dataclass(frozen=True)", "class " ++ className endpoint ++ ":",
    "    \"\"\"\"\"\""] ++ fieldLines fields

theorem hasCode_paramsClassLines (h : ∀ f ∈ fields, IsNameText f.name) :
    HasCode (paramsClassLines endpoint fields) (classCode endpoint fields) := by
  have hdoc : IsSilent
      ("Query parameters accepted by \x60\x60" ++ docstringText endpoint ++ "\x60\x60.") :=
    ((IsPlain.isSilent (by decide)).append (isSilent_docstringText _)).append
      (IsPlain.isSilent (by decide))
  have hattributes := isSilent_attributeLines fun f hf => (h f hf).isPlain
  have hdocstring := isDocstring_lines (by decide : IsPlain "    ") hdoc hattributes
  have hfields : HasCode (fieldLines fields) (fieldLines fields) := by
    apply hasCode_self
    intro line hline
    rcases eq_of_mem_fieldLines hline with rfl | ⟨f, hf, rfl⟩
    · exact IsBare.oneLine (by decide)
    · exact oneLine_line (h f hf)
  have hhead := hasCode_bare (List.forall_mem_cons.mpr
    ⟨(by decide : IsBare "@dataclasses.dataclass(frozen=True)"),
      List.forall_mem_singleton.mpr (isBare_classLine endpoint)⟩)
  rw [paramsClassLines_eq]
  exact (hhead.append (hasCode_docstring hdocstring (by decide))).append hfields

theorem isNameText_of_mem_nameFields {taken : List String} {params : List (String × Param)}
    (hf : f ∈ nameFields taken params) : IsNameText f.name := by
  obtain ⟨p, -, before, -, rfl⟩ := exists_of_mem_nameInTurn hf
  exact isNameText_identifier.uniqueIdentifier

theorem of_mem_nameFields {taken : List String} {params : List (String × Param)}
    (hf : f ∈ nameFields taken params) : (f.wire, f.param) ∈ params := by
  obtain ⟨p, hp, before, -, rfl⟩ := exists_of_mem_nameInTurn hf
  exact hp

theorem mem_fieldsOf_iff :
    f ∈ fieldsOf e ↔ f ∈ nameFields reservedFields (sortParams e.params) := by
  unfold fieldsOf
  dsimp only
  rw [List.mem_append, List.mem_filter, List.mem_filter, ← and_or_left]
  cases f.param.required <;> simp

theorem isNameText_of_mem_fieldsOf (hf : f ∈ fieldsOf e) : IsNameText f.name :=
  isNameText_of_mem_nameFields (mem_fieldsOf_iff.mp hf)

theorem hasCode_paramsClass {cls : String} (hname : e.name = some endpoint)
    (h : paramsClass e = .ok cls) : HasCode [cls] (classCode endpoint (fieldsOf e)) := by
  have hlines : HasCode (paramsClassLines endpoint (fieldsOf e))
      (classCode endpoint (fieldsOf e)) :=
    hasCode_paramsClassLines fun f hf => isNameText_of_mem_fieldsOf hf
  rw [paramsClass, hname] at h
  dsimp only at h
  split at h
  · simp at h
  · obtain rfl := Except.ok.inj h
    exact hlines.joined (List.cons_ne_nil _ _)

end Classes

section Functions

variable {f : Function} {a : Argument} {e : Endpoint} {cls k : String} {verb : Verb}
  {taken : List String} {paths : List PathTemplate} {parts : List PathPart} {p : PartArgument}

/-- A function all of whose names are made of the characters of identifiers. -/
structure Function.IsNamed (f : Function) : Prop where
  name : IsNameText f.name
  parts : ∀ p ∈ f.parts, IsNameText p.name
  paramsClass : IsNameText f.paramsClass

theorem isNameText_of_mem_partArguments (hp : p ∈ partArguments taken parts) :
    IsNameText p.name := by
  obtain ⟨part, -, before, -, rfl⟩ := exists_of_mem_nameInTurn hp
  exact isNameText_identifier.uniqueIdentifier

theorem isNamed_of_mem_functionsOf (hcls : IsNameText cls)
    (hf : f ∈ functionsOf e cls verb taken paths) : f.IsNamed := by
  obtain ⟨path, -, before, -, rfl⟩ := exists_of_mem_nameInTurn hf
  exact ⟨isNameText_uniqueFunctionName, fun _ hp => isNameText_of_mem_partArguments hp, hcls⟩

/-- The arguments of a function, whatever their order. -/
theorem mem_arguments_iff : a ∈ f.arguments ↔ a = ⟨"transport", .named "Transport", false⟩ ∨
    (∃ p ∈ f.parts, a = ⟨p.name, .ofType p.part.type, false⟩) ∨
    (f.body.isSome = true ∧ a = ⟨"body", .any, !f.bodyRequired⟩) ∨
    a = if f.paramsRequired then ⟨"params", .named f.paramsClass, false⟩
      else ⟨"params", .optional (.named f.paramsClass), true⟩ := by
  have hparts : a ∈ f.parts.map (fun p => ⟨p.name, .ofType p.part.type, false⟩) ↔
      ∃ p ∈ f.parts, a = ⟨p.name, .ofType p.part.type, false⟩ := by
    simp only [List.mem_map, eq_comm]
  have hsome : f.bodyRequired = true → f.body.isSome = true := by
    rw [Function.bodyRequired]
    cases f.body <;> simp
  simp only [Function.arguments, List.mem_append, List.mem_singleton, hparts]
  cases hrequired : f.bodyRequired with
  | true => simp [hsome hrequired, or_assoc]
  | false => cases f.body.isSome <;> simp [or_assoc, or_left_comm, or_comm]

theorem Function.IsNamed.of_mem_arguments (h : f.IsNamed) (ha : a ∈ f.arguments) :
    IsBare a.name ∧ a.hint.IsSafe := by
  have hcls : IsBare f.paramsClass := h.paramsClass.isBare
  rcases mem_arguments_iff.mp ha with rfl | ⟨p, hp, rfl⟩ | ⟨-, rfl⟩ | rfl
  · exact ⟨by decide, show IsBare "Transport" by decide⟩
  · exact ⟨(h.parts p hp).isBare, isSafe_ofType⟩
  · exact ⟨show IsBare "body" by decide, trivial⟩
  · have hparams : IsBare "params" := by decide
    split
    · exact ⟨hparams, hcls⟩
    · exact ⟨hparams, hcls⟩

theorem oneLine_argument (hname : IsBare a.name) (hhint : a.hint.IsSafe) : OneLine a.render := by
  have hcolon : IsBare ": " := by decide
  have hnone : IsBare (if a.hasDefault then " = None" else "") := by split <;> decide
  exact ((hname.append hcolon).oneLine.append (oneLine_render hhint)).append hnone.oneLine

theorem oneLine_argumentLine (h : f.IsNamed) (ha : a ∈ f.arguments) : OneLine (argumentLine a) := by
  have hindent : IsBare "    " := by decide
  have hcomma : IsBare "," := by decide
  obtain ⟨hname, hhint⟩ := h.of_mem_arguments ha
  exact (hindent.oneLine.append (oneLine_argument hname hhint)).append hcomma.oneLine

theorem oneLine_partsMapping (h : f.IsNamed) : OneLine f.partsMapping := by
  have hopen : IsBare "\x7b" := by decide
  have hclose : IsBare "\x7d" := by decide
  have hcolon : IsBare ": " := by decide
  have hitems : ∀ b ∈ f.parts.map (fun p => Escaped.ascii p.part.name ++ ": " ++ p.name),
      OneLine b := by
    intro b hb
    obtain ⟨p, hp, rfl⟩ := List.mem_map.mp hb
    exact ((oneLineBefore_ascii p.part.name).append hcolon (by decide)).append
      (h.parts p hp).isBare.oneLine
  exact (hopen.oneLine.append (OneLine.intercalate (by decide) hitems)).append hclose.oneLine

/-- The keyword arguments of a call, each of which may be left out but for the second. -/
theorem eq_of_mem_keywordArguments (hk : k ∈ f.keywordArguments) :
    k = "parts=" ++ f.partsMapping ∨ k = "params=params" ∨ k = "body=body" ∨
      ∃ hint, k = "serialize=" ++ Escaped.ascii hint := by
  simp only [Function.keywordArguments, List.mem_append] at hk
  rcases hk with ((hk | hk) | hk) | hk
  · split at hk
    · exact absurd hk List.not_mem_nil
    · exact .inl (List.mem_singleton.mp hk)
  · exact .inr (.inl (List.mem_singleton.mp hk))
  · split at hk
    · exact .inr (.inr (.inl (List.mem_singleton.mp hk)))
    · exact absurd hk List.not_mem_nil
  · rw [serializeHint_eq] at hk
    split at hk
    · exact absurd hk List.not_mem_nil
    · exact .inr (.inr (.inr ⟨_, List.mem_singleton.mp hk⟩))

theorem oneLineBefore_keyword (h : f.IsNamed) (hk : k ∈ f.keywordArguments) :
    OneLineBefore k := by
  have hparts : IsBare "parts=" := by decide
  have hserialize : IsBare "serialize=" := by decide
  rcases eq_of_mem_keywordArguments hk with rfl | rfl | rfl | ⟨hint, rfl⟩
  · exact (hparts.oneLine.append (oneLine_partsMapping h)).before
  · exact (IsBare.oneLine (by decide)).before
  · exact (IsBare.oneLine (by decide)).before
  · exact hserialize.oneLine.append_before (oneLineBefore_ascii hint)

theorem oneLine_keywordLine (h : OneLineBefore k) : OneLine (keywordLine k) := by
  have hindent : IsBare "        " := by decide
  exact (hindent.oneLine.append_before h).append (by decide) (by decide)

/-- The line that declares a function. -/
def Function.head (f : Function) : String := "def " ++ f.name ++ "("

/-- The lines of code of a function behind its docstring. -/
def Function.bodyCode (f : Function) : List String :=
  ["    return transport.request("] ++ [keywordLine ("" ++ Escaped.ascii f.verb.token)] ++
    [keywordLine ("" ++ Escaped.ascii f.path.raw)] ++ f.keywordArguments.map keywordLine ++
    ["    )"]

/-- The lines of code of a function. -/
def Function.code (f : Function) : List String :=
  [f.head] ++ f.arguments.map argumentLine ++ [") -> Any:"] ++ ["    \"\"\"\"\"\""] ++ f.bodyCode

/-- A line of a call is its first or its last one, or has a literal or a keyword argument. -/
theorem eq_of_mem_bodyCode {line : String} (hline : line ∈ f.bodyCode) :
    line ∈ ["    return transport.request(", "    )"] ∨
      (∃ text, line = keywordLine ("" ++ Escaped.ascii text)) ∨
      ∃ k ∈ f.keywordArguments, line = keywordLine k := by
  simp only [Function.bodyCode, List.mem_append, List.mem_singleton, List.mem_map] at hline
  rcases hline with (((rfl | rfl) | rfl) | ⟨k, hk, rfl⟩) | rfl
  · exact .inl List.mem_cons_self
  · exact .inr (.inl ⟨_, rfl⟩)
  · exact .inr (.inl ⟨_, rfl⟩)
  · exact .inr (.inr ⟨k, hk, rfl⟩)
  · exact .inl (List.mem_cons_of_mem _ List.mem_cons_self)

theorem oneLine_of_mem_bodyCode (h : f.IsNamed) {line : String} (hline : line ∈ f.bodyCode) :
    OneLine line := by
  have hends : ∀ line ∈ ["    return transport.request(", "    )"], IsBare line := by decide
  rcases eq_of_mem_bodyCode hline with hline | ⟨text, rfl⟩ | ⟨k, hk, rfl⟩
  · exact (hends line hline).oneLine
  · rw [String.empty_append]
    exact oneLine_keywordLine (oneLineBefore_ascii text)
  · exact oneLine_keywordLine (oneLineBefore_keyword h hk)

theorem Function.IsNamed.isBare_head (h : f.IsNamed) : IsBare f.head :=
  ((by decide : IsBare "def ").append h.name.isBare).append (by decide)

theorem hasCode_functionLines (h : f.IsNamed) : HasCode f.lines f.code := by
  have hhead := hasCode_bare (List.forall_mem_singleton.mpr h.isBare_head)
  have harguments : HasCode (f.arguments.map argumentLine) (f.arguments.map argumentLine) := by
    apply hasCode_self
    intro line hline
    obtain ⟨a, ha, rfl⟩ := List.mem_map.mp hline
    exact oneLine_argumentLine h ha
  have hreturns : HasCode [") -> Any:"] [") -> Any:"] := hasCode_bare (by decide)
  have hdocstring := hasCode_docstring (isDocstring_docLines fun p hp => (h.parts p hp).isPlain)
    (by decide)
  have hbody : HasCode f.bodyCode f.bodyCode := hasCode_self fun _ => oneLine_of_mem_bodyCode h
  have hlines : f.lines = [f.head] ++ f.arguments.map argumentLine ++ [") -> Any:"] ++ f.docLines ++
      f.bodyCode := by
    rw [lines_eq, Function.bodyCode]
    simp only [List.append_assoc]
    rfl
  rw [hlines]
  exact (((hhead.append harguments).append hreturns).append hdocstring).append hbody

end Functions

end EndpointBindings.Emission
