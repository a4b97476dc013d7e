import EndpointBindings.Proofs.ClassBody

/-!
The signature of an emitted function, and the names that its call evaluates, both read back from the
source. Whatever the parts of a path are called, the arguments have names that differ, those that
may be left out come last, and the call evaluates nothing but arguments.
-/

namespace EndpointBindings.Emission

open EndpointBindings.Naming EndpointBindings.Text

/-- An argument as a source declares it. -/
structure Parameter where
  name : String
  hasDefault : Bool
  deriving DecidableEq, Repr

/-- The argument of a line: its name stands in front of the first colon, and its default behind the
only equals sign that is in no literal. -/
def readParameter (item : String) : Parameter :=
  ⟨String.ofList (item.toList.takeWhile (· ≠ ':')), '=' ∈ skeletonFrom .code item.toList⟩

/-- The arguments that a source declares. -/
def signature (source : String) : List Parameter :=
  (((sourceLines source).drop 1).takeWhile (· ≠ ") -> Any:")).map fun line =>
    readParameter (listedItem "    " line)

/-- The names that the call of a source evaluates. -/
def callNames (source : String) : List String :=
  namesFrom false []
    (skeletonFrom .code (joinLines ((sourceLines source).dropWhile (· ≠ callLine))).toList)

section Parameters

variable {f : Function} {a : Argument}

def Argument.parameter (a : Argument) : Parameter := ⟨a.name, a.hasDefault⟩

theorem equals_notMem_argumentHint (h : f.IsNamed) (ha : a ∈ f.arguments) :
    '=' ∉ skeletonFrom .code a.hint.render.toList := by
  have hnamed : ∀ {name}, IsNameText name →
      '=' ∉ skeletonFrom .code (TypeHint.named name).render.toList := by
    intro name hname hmem
    have hskeleton := skeletonFrom_code_bare hname.isBare []
    rw [List.append_nil, skeletonFrom, List.append_nil] at hskeleton
    rw [TypeHint.render, hskeleton] at hmem
    rcases hname _ hmem with h | h <;> exact absurd h (by decide)
  rcases mem_arguments_iff.mp ha with rfl | ⟨p, hp, rfl⟩ | ⟨-, rfl⟩ | rfl
  · decide
  · exact equals_notMem_ofType
  · show '=' ∉ skeletonFrom .code "Any".toList
    decide
  · split
    · exact hnamed h.paramsClass
    · exact equals_notMem_optional h.paramsClass.isBare (hnamed h.paramsClass)

theorem readParameter_render (h : f.IsNamed) (ha : a ∈ f.arguments) :
    readParameter a.render = a.parameter := by
  obtain ⟨hname, hsafe⟩ := h.of_mem_arguments ha
  have hlist : a.render.toList = a.name.toList ++ (": ".toList ++ (a.hint.render.toList ++
      (if a.hasDefault then " = None" else "").toList)) := by
    simp [Argument.render]
  have hcolon : IsBare ": " := by decide
  have hnone : '=' ∈ skeletonFrom .code (if a.hasDefault then " = None" else "").toList ↔
      a.hasDefault = true := by
    cases a.hasDefault <;> decide
  have hequals : '=' ∉ a.name.toList := by
    intro hmem
    rcases h.isNameText ha _ hmem with h | h <;> exact absurd h (by decide)
  have hdefault : '=' ∈ skeletonFrom .code a.render.toList ↔ a.hasDefault = true := by
    rw [hlist, skeletonFrom_code_bare hname, skeletonFrom_code_bare hcolon,
      (oneLine_render hsafe).skeletonFrom_append]
    simp [hequals, equals_notMem_argumentHint h ha, hnone]
  rw [readParameter, takeWhile_render (h.isNameText ha), String.ofList_toList, Argument.parameter]
  simp [hdefault]

/-- The arguments of a function are read back from its source. -/
theorem signature_render (h : f.IsNamed) :
    signature f.render = f.arguments.map Argument.parameter := by
  rw [signature, argumentLines_render h, List.map_map]
  apply List.map_congr_left
  intro a ha
  rw [Function.comp_apply, argumentLine, listedItem_eq, readParameter_render h ha]

/-- No argument without a default follows one with a default. -/
theorem pairwise_arguments :
    f.arguments.Pairwise fun a b => a.hasDefault = true → b.hasDefault = true := by
  have hfront : ∀ a ∈ ([⟨"transport", .named "Transport", false⟩] ++
      f.parts.map (fun p => ⟨p.name, .ofType p.part.type, false⟩) ++
      (if f.bodyRequired then [⟨"body", .any, false⟩] else []) : List Argument),
      a.hasDefault = false := by
    intro a ha
    simp only [List.mem_append, List.mem_singleton, List.mem_map] at ha
    rcases ha with (rfl | ⟨p, -, rfl⟩) | ha
    · rfl
    · rfl
    · split at ha
      · rw [List.mem_singleton.mp ha]
      · exact absurd ha List.not_mem_nil
  rw [Function.arguments, List.append_assoc, List.pairwise_append]
  refine ⟨List.pairwise_of_forall_mem_list fun a ha b _ hdefault => ?_, ?_,
    fun a ha b _ hdefault => ?_⟩
  · exact absurd hdefault (by simp [hfront a ha])
  · cases f.paramsRequired <;> cases f.body.isSome && !f.bodyRequired <;> simp
  · exact absurd hdefault (by simp [hfront a ha])

theorem nodup_argument_names (hparts : (f.parts.map (·.name)).Nodup)
    (hfree : ∀ p ∈ f.parts, p.name ∉ reservedArguments) :
    (f.arguments.map (·.name)).Nodup := by
  have hreserved : ∀ p ∈ f.parts, p.name ≠ "transport" ∧ p.name ≠ "params" ∧ p.name ≠ "body" := by
    simpa [reservedArguments] using hfree
  simp only [Function.arguments, List.map_append, List.map_map, Function.comp_def]
  cases f.bodyRequired <;> cases f.paramsRequired <;> cases f.body.isSome <;>
    simp +contextual [List.nodup_append, hparts, hreserved]

end Parameters

section Calls

variable {f : Function} {p : PartArgument} {ps : List PartArgument} {item name : String}
  {c : Char} {rest : List Char} {items : List String} {names : List (List String)}

/-- An item of a call that evaluates the names, whatever follows its comma. -/
def Evaluates (item : String) (names : List String) : Prop :=
  ∀ rest, namesFrom false [] (skeletonFrom .code (item.toList ++ ',' :: rest)) =
    names ++ namesFrom false [] (skeletonFrom .code rest)

theorem evaluates_ascii (text : String) : Evaluates (Escaped.ascii text) [] := by
  intro rest
  rw [skeletonFrom_code_ascii (by simp), skeletonFrom_code_cons (by decide)]
  rfl

theorem evaluates_serialize (text : String) :
    Evaluates ("serialize=" ++ Escaped.ascii text) [] := by
  have hlabel : IsBare "serialize=" := by decide
  intro rest
  rw [String.toList_append, List.append_assoc, skeletonFrom_code_bare hlabel,
    skeletonFrom_code_ascii (by simp), skeletonFrom_code_cons (by decide)]
  rfl

theorem evaluates_params : Evaluates "params=params" ["params"] := by
  intro rest
  rw [skeletonFrom_code_bare (by decide), skeletonFrom_code_cons (by decide)]
  rfl

theorem evaluates_body : Evaluates "body=body" ["body"] := by
  intro rest
  rw [skeletonFrom_code_bare (by decide), skeletonFrom_code_cons (by decide)]
  rfl

theorem nameOf_identifier (h : IsIdentifier name) : nameOf false false name.toList = [name] := by
  obtain ⟨c, more, hname, hc⟩ := h.start
  have hhead : name.toList.head? = some c := by rw [hname, List.head?_cons]
  have hdigit : c.isDigit = false := by
    rcases hc with hc | rfl
    · exact isDigit_of_isAlpha hc
    · decide
  simp [nameOf, hhead, hdigit, h.notKeyword]

theorem namesFrom_entry (h : IsIdentifier p.name) (hc : c = ',' ∨ c = '}') :
    namesFrom false [] (skeletonFrom .code (p.entry.toList ++ c :: rest)) =
      p.name :: namesFrom false [] (skeletonFrom .code rest) := by
  have hbare : IsBare p.name := IsNameText.isBare h.chars
  have hlist : p.entry.toList ++ c :: rest = (Escaped.ascii p.part.name).toList ++
      (": ".toList ++ (p.name.toList ++ c :: rest)) := by
    simp [PartArgument.entry]
  have hchars : ∀ d ∈ p.name.toList, isNameEnd d = false := by
    intro d hd
    rcases h.chars d hd with hd | hd <;> simp [isNameEnd, hd]
  have hend : isNameEnd c = true ∧ (c == '=') = false ∧ (c == '.') = false ∧ c ≠ '"' := by
    rcases hc with rfl | rfl <;> decide
  have hsigns : ∀ more, namesFrom false [] ('"' :: '"' :: (": ".toList ++ more)) =
      namesFrom false [] more := fun more => rfl
  rw [hlist, skeletonFrom_code_ascii (by simp), skeletonFrom_code_bare (by decide : IsBare ": "),
    skeletonFrom_code_bare hbare, skeletonFrom_code_cons hend.2.2.2, hsigns,
    namesFrom_word hchars hend.1, hend.2.1, hend.2.2.1, nameOf_identifier h]
  rfl

theorem namesFrom_entries (h : ∀ p ∈ ps, IsIdentifier p.name) :
    namesFrom false [] (skeletonFrom .code
      ((", ".intercalate (ps.map PartArgument.entry)).toList ++ '}' :: rest)) =
        ps.map (·.name) ++ namesFrom false [] (skeletonFrom .code rest) := by
  have hspace : ∀ more, namesFrom false [] (skeletonFrom .code (' ' :: more)) =
      namesFrom false [] (skeletonFrom .code more) := by
    intro more
    rw [skeletonFrom_code_cons (by decide)]
    rfl
  induction ps with
  | nil =>
      rw [List.map_nil, String.intercalate_nil, String.toList_empty, List.nil_append,
        skeletonFrom_code_cons (by decide)]
      rfl
  | cons p more ih =>
      obtain ⟨hp, hmore⟩ := List.forall_mem_cons.mp h
      cases more with
      | nil =>
          rw [List.map_singleton, String.intercalate_singleton, namesFrom_entry hp (.inr rfl)]
          rfl
      | cons q more =>
          have hlist : (", ".intercalate ((p :: q :: more).map PartArgument.entry)).toList ++
              '}' :: rest = p.entry.toList ++ ',' :: ' ' :: ((", ".intercalate
                ((q :: more).map PartArgument.entry)).toList ++ '}' :: rest) := by
            rw [List.map_cons, List.map_cons, String.intercalate_cons_cons]
            simp
          rw [hlist, namesFrom_entry hp (.inl rfl), hspace, ih hmore]
          rfl

theorem evaluates_parts (h : ∀ p ∈ f.parts, IsIdentifier p.name) :
    Evaluates ("parts=" ++ f.partsMapping) (f.parts.map (·.name)) := by
  intro rest
  have hopen : IsBare "parts=\x7b" := by decide
  have hlist : ("parts=" ++ f.partsMapping).toList ++ ',' :: rest = "parts=\x7b".toList ++
      ((", ".intercalate (f.parts.map PartArgument.entry)).toList ++ '}' :: ',' :: rest) := by
    have hmapping : f.partsMapping =
        "\x7b" ++ ", ".intercalate (f.parts.map PartArgument.entry) ++ "\x7d" := rfl
    rw [hmapping]
    simp
  have hlabel : ∀ more, namesFrom false [] ("parts=\x7b".toList ++ more) =
      namesFrom false [] more := fun more => rfl
  rw [hlist, skeletonFrom_code_bare hopen, hlabel, namesFrom_entries h,
    skeletonFrom_code_cons (by decide)]
  rfl

/-- What the items of a call evaluate, one after another. -/
theorem namesFrom_items (h : List.Forall₂ Evaluates items names) :
    namesFrom false []
      (skeletonFrom .code (joinLines (items.map keywordLine ++ ["    )"])).toList) =
        names.flatten := by
  have hindent : IsBare "        " := by decide
  have hblanks : ∀ more, namesFrom false [] ("        ".toList ++ more) =
      namesFrom false [] more := fun more => rfl
  induction h with
  | nil => decide
  | @cons item ns items names hitem hrest ih =>
      have hlist : (joinLines ((item :: items).map keywordLine ++ ["    )"])).toList =
          "        ".toList ++ (item.toList ++ ',' :: '\n' ::
            (joinLines (items.map keywordLine ++ ["    )"])).toList) := by
        rw [joinLines, List.map_cons, List.cons_append,
          String.intercalate_cons_of_ne_nil (by simp), keywordLine]
        simp [joinLines]
      rw [hlist, skeletonFrom_code_bare hindent, hblanks, hitem, skeletonFrom_code_cons (by decide),
        List.flatten_cons, ← ih]
      rfl

theorem exists_evaluates (hparts : ∀ p ∈ f.parts, IsIdentifier p.name) :
    ∃ names, List.Forall₂ Evaluates
      ([Escaped.ascii f.verb.token, Escaped.ascii f.path.raw] ++ f.keywordArguments) names ∧
      names.flatten = f.parts.map (·.name) ++ ["params"] ++
        if f.body.isSome then ["body"] else [] := by
  have hmapping : List.Forall₂ Evaluates
      (if f.parts.isEmpty then [] else ["parts=" ++ f.partsMapping])
      (if f.parts.isEmpty then [] else [f.parts.map (·.name)]) := by
    split
    · exact .nil
    · exact .cons (evaluates_parts hparts) .nil
  have hbody : List.Forall₂ Evaluates (if f.body.isSome then ["body=body"] else [])
      (if f.body.isSome then [["body"]] else []) := by
    split
    · exact .cons evaluates_body .nil
    · exact .nil
  have hserialize : List.Forall₂ Evaluates f.serializeHint (f.serializeHint.map fun _ => []) := by
    rw [serializeHint_eq]
    split
    · exact .nil
    · exact .cons (evaluates_serialize _) .nil
  have hliterals : List.Forall₂ Evaluates
      [Escaped.ascii f.verb.token, Escaped.ascii f.path.raw] [[], []] :=
    .cons (evaluates_ascii _) (.cons (evaluates_ascii _) .nil)
  refine ⟨_, List.rel_append hliterals (List.rel_append (List.rel_append (List.rel_append hmapping
    (.cons evaluates_params .nil)) hbody) hserialize), ?_⟩
  have hnone : (f.serializeHint.map fun _ => ([] : List String)).flatten = [] := by simp
  have hnames : (if f.parts.isEmpty then [] else [f.parts.map (·.name)]).flatten =
      f.parts.map (·.name) := by
    cases f.parts <;> simp
  simp only [List.flatten_append, hnone, hnames]
  cases f.body.isSome <;> simp

/-- The call of a function evaluates the transport, the parts, the parameters and what it sends. -/
theorem callNames_render (h : f.IsNamed) (hparts : ∀ p ∈ f.parts, IsIdentifier p.name) :
    callNames f.render = "transport" :: (f.parts.map (·.name) ++ ["params"] ++
      if f.body.isSome then ["body"] else []) := by
  obtain ⟨names, hitems, hnames⟩ := exists_evaluates hparts
  have hlist : (joinLines (callLine :: (f.callLines ++ ["    )"]))).toList =
      callLine.toList ++ '\n' :: (joinLines (f.callLines ++ ["    )"])).toList := by
    rw [joinLines, String.intercalate_cons_of_ne_nil (by simp)]
    simp [joinLines]
  have hcall : ∀ more, namesFrom false [] (callLine.toList ++ '\n' :: more) =
      "transport" :: namesFrom false [] more := fun more => rfl
  rw [callNames, sourceLines_render h, Function.lines_eq_call,
    dropWhile_ne callLine_notMem_headLines, hlist, skeletonFrom_code_bare (by decide),
    skeletonFrom_code_cons (by decide), hcall, Function.callLines, namesFrom_items hitems, hnames]

end Calls

/-- A name for the argument of a part: its identifier, with underscores that make it differ. -/
def IsNamedFor (part : PathPart) (name : String) : Prop :=
  ∃ k, name = underscored (identifier part.name) k

/-- The signature of a source that calls the transport for an endpoint and one of its paths. -/
structure HasSignature (e : Endpoint) (path : PathTemplate) (source : String) : Prop where
  first : (signature source).head? = some ⟨"transport", false⟩
  identifiers : ∀ p ∈ signature source, IsIdentifier p.name
  distinct : ((signature source).map (·.name)).Nodup
  ordered : (signature source).Pairwise fun p q => p.hasDefault = true → q.hasDefault = true
  parts : List.Forall₂ IsNamedFor path.parts (pathArguments source)
  mapping : ∀ named, ∃ call, readCall? named source = some call ∧
    call.parts = List.zipWith (fun part name => (units part.name, name)) path.parts
      (pathArguments source)
  reads : callNames source = "transport" :: (pathArguments source ++ ["params"] ++
    if "body=body" ∈ callItems source then ["body"] else [])
  bound : ∀ name ∈ callNames source, name ∈ (signature source).map (·.name)
  params : ⟨"params", !e.params.any (·.2.required)⟩ ∈ signature source
  body : "body" ∈ (signature source).map (·.name) ↔ "body=body" ∈ callItems source
  bodyDefault : "body" ∈ (signature source).map (·.name) →
    ⟨"body", !e.body.any (·.required)⟩ ∈ signature source

section Plans

variable {e : Endpoint} {cls name : String} {verb : Verb} {taken : List String}
  {paths : List PathTemplate} {part : PathPart} {parts : List PathPart} {f : Function}

theorem IsNamedFor.isIdentifier (h : IsNamedFor part name) : IsIdentifier name := by
  obtain ⟨k, rfl⟩ := h
  exact ((isLowerIdentifier_identifier part.name).underscored k).isIdentifier

theorem forall₂_isNamedFor :
    List.Forall₂ IsNamedFor parts ((partArguments taken parts).map (·.name)) := by
  rw [List.forall₂_map_right_iff]
  refine forall₂_choices.imp ?_
  rintro part p ⟨before, -, rfl⟩
  exact exists_fresh_eq

theorem isIdentifier_of_mem_partArguments {p : PartArgument}
    (hp : p ∈ partArguments taken parts) : IsIdentifier p.name := by
  obtain ⟨part, -, before, -, rfl⟩ := exists_of_mem_nameInTurn hp
  exact (isLowerIdentifier_identifier part.name).uniqueIdentifier.isIdentifier

theorem body_of_mem_functionsOf (hf : f ∈ functionsOf e cls verb taken paths) :
    (f.body = none ∨ f.body = e.body) ∧ f.paramsRequired = e.params.any (·.2.required) := by
  obtain ⟨path, -, k, rfl⟩ := exists_functionOf_eq hf
  refine ⟨?_, rfl⟩
  unfold functionOf
  cases acceptsBody verb e.body
  · exact .inl rfl
  · exact .inr rfl

theorem body_mem_callItems_iff (h : f.IsNamed) :
    "body=body" ∈ callItems f.render ↔ f.body.isSome = true := by
  have hliteral : ∀ text, "body=body" ≠ Escaped.ascii text := by
    intro text heq
    have hhead := congrArg (fun s => s.toList.head?) heq
    simp [Escaped.ascii, Escaped.write] at hhead
  have hserialize : "body=body" ∉ f.serializeHint := by
    rw [serializeHint_eq]
    split
    · exact List.not_mem_nil
    · exact fun hmem => append_ne (by decide) (List.mem_singleton.mp hmem).symm
  have hparts : "body=body" ∉ if f.parts.isEmpty then [] else ["parts=" ++ f.partsMapping] := by
    split
    · exact List.not_mem_nil
    · exact fun hmem => append_ne (by decide) (List.mem_singleton.mp hmem).symm
  rw [callItems_render h, Function.keywordArguments]
  simp only [List.mem_append, List.mem_cons, List.not_mem_nil, hliteral, hparts, hserialize,
    false_or, or_false]
  cases f.body.isSome <;> simp

theorem isIdentifier_of_mem_reservedArguments (h : name ∈ reservedArguments) :
    IsIdentifier name := by
  have hchars := isNameText_of_mem_reservedArguments h
  simp only [reservedArguments, List.mem_cons, List.not_mem_nil, or_false] at h
  rcases h with rfl | rfl | rfl <;>
    exact ⟨⟨_, _, rfl, .inl (by decide)⟩, hchars, by decide⟩

theorem body_mem_arguments_iff (hfree : ∀ p ∈ f.parts, p.name ∉ reservedArguments) :
    "body" ∈ f.arguments.map (·.name) ↔ f.body.isSome = true := by
  rw [List.mem_map]
  constructor
  · rintro ⟨a, ha, hname⟩
    rcases mem_arguments_iff.mp ha with rfl | ⟨p, hp, rfl⟩ | ⟨hbody, -⟩ | rfl
    · exact absurd hname (by decide)
    · have hbody : p.name = "body" := hname
      exact absurd (by simp [reservedArguments, hbody]) (hfree p hp)
    · exact hbody
    · split at hname <;> exact absurd hname (by simp)
  · exact fun hbody => ⟨_, mem_arguments_iff.mpr (.inr (.inr (.inl ⟨hbody, rfl⟩))), rfl⟩

theorem body_mem_parameters (h : f.body.isSome = true) :
    ⟨"body", !f.bodyRequired⟩ ∈ f.arguments.map Argument.parameter :=
  List.mem_map.mpr ⟨_, mem_arguments_iff.mpr (.inr (.inr (.inl ⟨h, rfl⟩))), rfl⟩

theorem params_mem_parameters :
    ⟨"params", !f.paramsRequired⟩ ∈ f.arguments.map Argument.parameter := by
  refine List.mem_map.mpr ⟨_, mem_arguments_iff.mpr (.inr (.inr (.inr rfl))), ?_⟩
  cases f.paramsRequired <;> rfl

theorem isIdentifier_of_mem_arguments {a : Argument} (h : ∀ p ∈ f.parts, IsIdentifier p.name)
    (ha : a ∈ f.arguments) : IsIdentifier a.name := by
  have hreserved : ∀ name ∈ reservedArguments, IsIdentifier name := fun _ =>
    isIdentifier_of_mem_reservedArguments
  rcases mem_arguments_iff.mp ha with rfl | ⟨p, hp, rfl⟩ | ⟨-, rfl⟩ | rfl
  · exact hreserved "transport" (by simp [reservedArguments])
  · exact h p hp
  · exact hreserved "body" (by simp [reservedArguments])
  · split <;> exact hreserved "params" (by simp [reservedArguments])

/-- A call evaluates nothing but the arguments of its function. -/
theorem mem_arguments_of_mem_callNames (h : f.IsNamed) (hparts : ∀ p ∈ f.parts, IsIdentifier p.name)
    (hname : name ∈ callNames f.render) : name ∈ f.arguments.map (·.name) := by
  have hparameter : ∀ {p}, p ∈ f.arguments.map Argument.parameter →
      p.name ∈ f.arguments.map (·.name) := by
    intro p hp
    obtain ⟨a, ha, rfl⟩ := List.mem_map.mp hp
    exact List.mem_map_of_mem ha
  rw [callNames_render h hparts, List.mem_cons, List.mem_append, List.mem_append] at hname
  rcases hname with rfl | (hname | hname) | hname
  · exact List.mem_map.mpr ⟨_, mem_arguments_iff.mpr (.inl rfl), rfl⟩
  · obtain ⟨p, hp, rfl⟩ := List.mem_map.mp hname
    exact List.mem_map.mpr ⟨_, mem_arguments_iff.mpr (.inr (.inl ⟨p, hp, rfl⟩)), rfl⟩
  · obtain rfl := List.mem_singleton.mp hname
    exact hparameter params_mem_parameters
  · split at hname
    · rename_i hbody
      obtain rfl := List.mem_singleton.mp hname
      exact hparameter (body_mem_parameters hbody)
    · exact absurd hname List.not_mem_nil

theorem hasSignature (h : f.IsPlanned e) (hbody : f.body = none ∨ f.body = e.body)
    (hparams : f.paramsRequired = e.params.any (·.2.required)) :
    HasSignature e f.path f.render := by
  have hsignature := signature_render h.named
  have hnames : (signature f.render).map (·.name) = f.arguments.map (·.name) := by
    rw [hsignature, List.map_map]
    rfl
  have hidentifiers : ∀ p ∈ f.parts, IsIdentifier p.name := fun p hp =>
    isIdentifier_of_mem_partArguments (h.parts ▸ hp)
  have hpath := pathArguments_render h.named h.free
  have hargument := body_mem_arguments_iff h.free
  constructor
  case first =>
    rw [hsignature]
    rfl
  case identifiers =>
    rw [hsignature, List.forall_mem_map]
    exact fun a ha => isIdentifier_of_mem_arguments hidentifiers ha
  case distinct =>
    rw [hnames]
    exact nodup_argument_names h.names_nodup h.free
  case ordered =>
    rw [hsignature, List.pairwise_map]
    exact pairwise_arguments
  case parts =>
    rw [hpath, h.parts]
    exact forall₂_isNamedFor
  case mapping =>
    have hparts : f.path.parts = f.parts.map (·.part) := by rw [h.parts, partArguments_parts]
    intro named
    refine ⟨_, readCall?_render h.named, ?_⟩
    rw [hpath, hparts, List.zipWith_map, List.zipWith_self]
    rfl
  case reads =>
    rw [callNames_render h.named hidentifiers, hpath]
    simp only [body_mem_callItems_iff h.named]
  case bound =>
    intro name hname
    rw [hnames]
    exact mem_arguments_of_mem_callNames h.named hidentifiers hname
  case params =>
    rw [hsignature, ← hparams]
    exact params_mem_parameters
  case body => rw [hnames, body_mem_callItems_iff h.named, hargument]
  case bodyDefault =>
    intro hmem
    rw [hnames, hargument] at hmem
    have hrequired : f.bodyRequired = e.body.any (·.required) := by
      rcases hbody with hnone | hsame
      · simp [hnone] at hmem
      · rw [Function.bodyRequired, hsame]
    rw [hsignature, ← hrequired]
    exact body_mem_parameters hmem

end Plans

section Documents

variable {document : Fields} {e : Endpoint}

/-- A document that describes an endpoint has a function for each of its verbs and paths. Each
function declares its arguments under names that differ, one for each part of its path, and those
that may be left out last; its call evaluates no name but these. -/
theorem signatures_well_scoped (hassemble : assemble document = .ok e) (stem : String) :
    ∃ bindings, bindingsOf (e.orNamed stem) = .ok bindings ∧
      bindings.map (·.verb) = Verb.canonical e.verbs ∧
      ∀ b ∈ bindings, b.functions.map (·.path) = e.paths ∧
        ∀ f ∈ b.functions, f.verb = b.verb ∧ HasSignature e f.path f.render := by
  obtain ⟨hverbs, hpaths⟩ := Assembly.isEmittable_of_assemble hassemble
  have hemittable : IsEmittable (e.name.getD stem) (e.orNamed stem) := ⟨rfl, hverbs, hpaths⟩
  refine ⟨_, bindingsOf_eq hemittable, ?_, fun b hb => ?_⟩
  · rw [List.map_map]
    exact List.map_id'' (fun _ => rfl) _
  · obtain ⟨verb, -, rfl⟩ := List.mem_map.mp hb
    refine ⟨functionsOf_paths, fun f hf => ⟨verb_of_mem_functionsOf hf, ?_⟩⟩
    obtain ⟨hpath, hparts⟩ := parts_of_mem_functionsOf hf
    obtain ⟨hbody, hparams⟩ := body_of_mem_functionsOf hf
    have hplanned : f.IsPlanned e :=
      ⟨isNamed_of_mem_functionsOf isNameText_className hf, hpath, hparts⟩
    exact hasSignature hplanned hbody hparams

/-- The parts are named like an argument of every function, and like a word of the language. -/
theorem signatures_well_scoped_reserved :
    ∃ e bindings, assemble (routed "/\x7bparams\x7d/\x7bfrom\x7d" ["params", "from"]) = .ok e ∧
      bindingsOf (e.orNamed "reserved") = .ok bindings ∧
      ∃ b ∈ bindings, ∃ f ∈ b.functions, HasSignature e f.path f.render ∧
        pathArguments f.render = ["params_", "from_"] := by
  have hchecked : isOkWith (fun e => e.paths.all fun path =>
      path.parts.map (·.name) == ["params", "from"])
      (assemble (routed "/\x7bparams\x7d/\x7bfrom\x7d" ["params", "from"])) = true := by
    decide +kernel
  obtain ⟨e, bindings, he, hbindings, b, hb, f, hf, h, hsame⟩ :=
    exists_checked_function hchecked "reserved"
  obtain ⟨_, hbindings', -, hfunctions⟩ := signatures_well_scoped he "reserved"
  obtain rfl := Except.ok.inj (hbindings'.symm.trans hbindings)
  have hidentifiers : f.path.parts.map (fun part => identifier part.name) =
      ["params", "from"].map identifier := by
    rw [← beq_iff_eq.mp hsame, List.map_map]
    rfl
  have harguments : pathArguments f.render = ["params_", "from_"] := by
    rw [pathArguments_render h.named h.free, h.parts, partArguments_names, hidentifiers]
    decide +kernel
  exact ⟨e, _, he, hbindings, b, hb, f, hf, ((hfunctions b hb).2 f hf).2, harguments⟩

end Documents

end EndpointBindings.Emission
