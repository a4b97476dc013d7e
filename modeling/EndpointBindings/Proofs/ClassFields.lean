import EndpointBindings.Proofs.ClassBody

/-!
The fields of the class of parameters, read back from its source with the wire names in their
metadata. Each parameter has one field, under a name that can stand there, the required ones first
and each group in the order of the wire names. A wire name is read as its sixteen-bit units, so the
fields carry the wire names themselves exactly when no name has a character past the first plane.
-/

namespace EndpointBindings.Emission

open EndpointBindings.Naming EndpointBindings.Text

/-- The literals of a source, from the first to the last. -/
def literalsOf? (named : String → Option Nat) : List Char → Option (List (List Nat))
  | [] => some []
  | c :: rest =>
    if c = '"' then
      match _ : readText? named (c :: rest) with
      | none => none
      | some (points, more) => (literalsOf? named more).map (points :: ·)
    else literalsOf? named rest
termination_by cs => cs.length
decreasing_by
  · exact length_of_readText? ‹readText? _ _ = _›
  · exact Nat.lt_succ_self _

/-- A field as a class declares it: the code points of its wire name, and whether it may be left
out. -/
structure ClassField where
  name : String
  wire : List Nat
  hasDefault : Bool
  deriving DecidableEq, Repr

/-- Whether the call on a line starts with a default. -/
def givesDefault (line : String) : Bool :=
  " dataclasses.field(default=".toList.isPrefixOf
    (((skeletonFrom .code line.toList).dropWhile (· ≠ '=')).drop 1)

/-- The field on a line. The metadata end the line, so the wire name is the last literal, and the
one before it is the key of the wire name. -/
def readField? (named : String → Option Nat) (line : String) : Option ClassField :=
  match (literalsOf? named line.toList).map List.reverse with
  | some (wire :: key :: _) =>
    if key = points "wire" then some ⟨(readDeclaration line).name, wire, givesDefault line⟩
    else none
  | _ => none

/-- The fields of a class, in the lines behind its docstring. -/
def classFields? (named : String → Option Nat) (source : String) : Option (List ClassField) :=
  ((((sourceLines source).dropWhile (· ≠ "    \"\"\"")).drop 1).filter (· ≠ "")).mapM
    (readField? named)

section Literals

variable {named : String → Option Nat} {a b m text : String} {c : Char} {rest : List Char}
  {texts : List String} {hint : TypeHint}

theorem literalsOf?_cons (h : c ≠ '"') :
    literalsOf? named (c :: rest) = literalsOf? named rest := by
  rw [literalsOf?, if_neg h]

theorem literalsOf?_bare (h : IsBare a) :
    literalsOf? named (a.toList ++ rest) = literalsOf? named rest := by
  unfold IsBare at h
  generalize a.toList = cs at h
  induction cs with
  | nil => rfl
  | cons c more ih =>
      obtain ⟨hc, hmore⟩ := List.forall_mem_cons.mp h
      rw [List.cons_append, literalsOf?_cons hc.1, ih hmore]

theorem literalsOf?_ascii (h : rest.head? ≠ some '"') :
    literalsOf? named ((Escaped.ascii text).toList ++ rest) =
      (literalsOf? named rest).map (units text :: ·) := by
  have hread := @readText?_ascii named rest text h
  obtain ⟨cs, hcs⟩ : ∃ cs, (Escaped.ascii text).toList ++ rest = '"' :: cs :=
    ⟨_, by rw [Escaped.ascii, Escaped.write, String.toList_ofList, List.cons_append]⟩
  rw [hcs] at hread ⊢
  rw [literalsOf?, if_pos rfl]
  split
  · simp_all
  · rename_i points more htext
    obtain ⟨rfl, rfl⟩ := Prod.mk.inj (Option.some.inj (hread.symm.trans htext))
    rfl

/-- A piece of source behind which literals are read on, where it is not a quote that follows. -/
def ReadsOn (named : String → Option Nat) (a : String) : Prop :=
  ∀ rest, rest.head? ≠ some '"' → ∃ before,
    literalsOf? named (a.toList ++ rest) = (literalsOf? named rest).map (before ++ ·)

theorem IsBare.readsOn (h : IsBare a) : ReadsOn named a := by
  intro rest _
  exact ⟨[], by rw [literalsOf?_bare h]; simp⟩

theorem readsOn_ascii (text : String) : ReadsOn named (Escaped.ascii text) := by
  intro rest hrest
  exact ⟨[units text], literalsOf?_ascii hrest⟩

theorem ReadsOn.append (ha : ReadsOn named a) (hb : ReadsOn named b)
    (hfirst : b.toList.head?.any (· ≠ '"') = true) : ReadsOn named (a ++ b) := by
  intro rest hrest
  obtain ⟨more, hmore⟩ := hb rest hrest
  have hhead : (b.toList ++ rest).head? ≠ some '"' := by
    cases hb : b.toList with
    | nil => simp [hb] at hfirst
    | cons c cs => simpa [hb] using hfirst
  obtain ⟨before, hbefore⟩ := ha _ hhead
  refine ⟨before ++ more, ?_⟩
  rw [String.toList_append, List.append_assoc, hbefore, hmore, Option.map_map]
  simp [Function.comp_def]

theorem ReadsOn.bare_append (ha : IsBare a) (hb : ReadsOn named b) : ReadsOn named (a ++ b) := by
  intro rest hrest
  obtain ⟨before, hbefore⟩ := hb rest hrest
  exact ⟨before, by rw [String.toList_append, List.append_assoc, literalsOf?_bare ha, hbefore]⟩

theorem readsOn_texts (texts : List String) :
    ReadsOn named (", ".intercalate (texts.map Escaped.ascii)) := by
  have hcomma : IsBare ", " := by decide
  induction texts with
  | nil => exact IsBare.readsOn (by decide)
  | cons text more ih =>
      cases more with
      | nil =>
          rw [List.map_singleton, String.intercalate_singleton]
          exact readsOn_ascii text
      | cons next more =>
          rw [List.map_cons, List.map_cons, String.intercalate_cons_cons, String.append_assoc]
          refine (readsOn_ascii text).append (.bare_append hcomma ih) ?_
          rw [String.toList_append]
          rfl

theorem readsOn_enclosed {opening closing : String} (hopen : IsBare opening)
    (hm : ReadsOn named m) (hclose : IsBare closing)
    (hfirst : closing.toList.head?.any (· ≠ '"') = true) :
    ReadsOn named (opening ++ m ++ closing) := by
  rw [String.append_assoc]
  exact .bare_append hopen (hm.append hclose.readsOn hfirst)

theorem readsOn_hint (h : hint.IsSafe) : ReadsOn named hint.render := by
  induction hint with
  | str | bool | int | float | any | textSequence => exact IsBare.readsOn (by decide)
  | literal options =>
      exact readsOn_enclosed (by decide) (readsOn_texts options) (by decide) (by decide)
  | named name => exact h.readsOn
  | optional inner ih => exact readsOn_enclosed (by decide) (ih h) (by decide) (by decide)

theorem readsOn_literal (d : Default) : ReadsOn named (literal d) := by
  cases d with
  | text s => exact readsOn_ascii s
  | flag b => cases b <;> exact IsBare.readsOn (by decide)
  | integer i => exact (areNumeral_toString i).isBare.readsOn
  | float x =>
      rw [literal]
      by_cases hx : x.isFinite = true
      · rw [floatLiteral, if_pos hx]
        exact (areNumeral_text hx).isBare.readsOn
      · rw [floatLiteral_of_not_finite hx]
        exact readsOn_enclosed (by decide) (readsOn_ascii _) (by decide) (by decide)
  | list texts =>
      rw [literal, tupleLiteral.eq_def]
      split
      · exact readsOn_enclosed (by decide) (readsOn_ascii _) (by decide) (by decide)
      · exact readsOn_enclosed (by decide) (readsOn_texts _) (by decide) (by decide)

end Literals

section Lines

variable {named : String → Option Nat} {f : Field} {rest : List Char} {cls name : String}
  {e : Endpoint}

theorem literalsOf?_metadata :
    literalsOf? named (f.metadata ++ ")").toList = some [units "wire", units f.wire] := by
  have hclose : literalsOf? named ['}', ')'] = some [] := by
    rw [literalsOf?_cons (by decide), literalsOf?_cons (by decide), literalsOf?]
  rw [toList_metadata, literalsOf?_bare (by decide), literalsOf?_ascii (by simp),
    literalsOf?_bare (by decide), literalsOf?_ascii (by simp), hclose]
  rfl

/-- The default of a field is a bare text or a literal behind its keyword. -/
theorem defaultArgument_cases : f.param.required = true ∧ f.defaultArgument = "" ∨
    f.param.required = false ∧ (f.defaultArgument = "default=None, " ∨
      ∃ d, f.defaultArgument = "default=" ++ literal d ++ ", ") := by
  rw [Field.defaultArgument, Field.defaultText?]
  cases f.param.required with
  | true => exact .inl ⟨rfl, rfl⟩
  | false =>
      cases f.param.default with
      | none => exact .inr ⟨rfl, .inl (by decide)⟩
      | some d => exact .inr ⟨rfl, .inr ⟨d, rfl⟩⟩

theorem exists_literalsOf?_arguments : ∃ before,
    literalsOf? named (f.defaultArgument ++ (f.metadata ++ ")")).toList =
      some (before ++ [units "wire", units f.wire]) := by
  have hlabel : IsBare "default=" := by decide
  have hcomma : IsBare ", " := by decide
  have hnone : IsBare "default=None, " := by decide
  rw [String.toList_append]
  rcases @defaultArgument_cases f with ⟨-, hargument⟩ | ⟨-, hargument | ⟨d, hargument⟩⟩
  · rw [hargument, String.toList_empty, List.nil_append]
    exact ⟨[], literalsOf?_metadata⟩
  · rw [hargument, literalsOf?_bare hnone]
    exact ⟨[], literalsOf?_metadata⟩
  · obtain ⟨before, hbefore⟩ := @readsOn_literal named d
      (", ".toList ++ (f.metadata ++ ")").toList) (by simp)
    refine ⟨before, ?_⟩
    rw [hargument, String.toList_append, String.toList_append, List.append_assoc, List.append_assoc,
      literalsOf?_bare hlabel, hbefore, literalsOf?_bare hcomma, literalsOf?_metadata]
    rfl

theorem exists_literalsOf?_line (h : IsNameText f.name) : ∃ before,
    literalsOf? named f.line.toList = some (before ++ [units "wire", units f.wire]) := by
  have hcall : IsBare " = dataclasses.field(" := by decide
  obtain ⟨inner, hinner⟩ := @exists_literalsOf?_arguments named f
  obtain ⟨outer, houter⟩ := @readsOn_hint named _ (@isSafe_fieldHint f)
    (" = dataclasses.field(".toList ++ (f.defaultArgument ++ (f.metadata ++ ")")).toList) (by simp)
  refine ⟨outer ++ inner, ?_⟩
  rw [toList_line, literalsOf?_bare (by decide), literalsOf?_bare h.isBare,
    literalsOf?_bare (by decide), houter, literalsOf?_bare hcall, hinner]
  simp

theorem givesDefault_line (h : IsNameText f.name) : givesDefault f.line = !f.param.required := by
  have hequals : '=' ∉ ' ' :: ' ' :: ' ' :: ' ' :: f.name.toList := by
    have hname : '=' ∉ f.name.toList := by
      intro hmem
      rcases h _ hmem with h | h <;> exact absurd h (by decide)
    simpa using hname
  have hcall : ((skeletonFrom .code f.line.toList).dropWhile (· ≠ '=')).drop 1 =
      " dataclasses.field(".toList ++
        skeletonFrom .code (f.defaultArgument ++ (f.metadata ++ ")")).toList := by
    rw [skeletonFrom_code_line_eq h]
    exact @drop_hint _ (' ' :: ' ' :: ' ' :: ' ' :: f.name.toList) _ hequals equals_notMem_hint
  have hprefix : ∀ r, " dataclasses.field(default=".toList.isPrefixOf
      (" dataclasses.field(".toList ++ r) = "default=".toList.isPrefixOf r := fun r => by
    simp [List.isPrefixOf]
  have hlabel : IsBare "default=" := by decide
  have hdefault : ∀ r, "default=".toList.isPrefixOf ("default=".toList ++ r) = true := by
    intro r
    simp
  have hmetadata : IsBare "metadata=\x7b" := by decide
  rw [givesDefault, hcall, hprefix, String.toList_append]
  rcases @defaultArgument_cases f with
    ⟨hrequired, hargument⟩ | ⟨hrequired, hargument | ⟨d, hargument⟩⟩
  · rw [hargument, hrequired, String.toList_empty, List.nil_append, toList_metadata,
      skeletonFrom_code_bare hmetadata]
    rfl
  · have hnone : "default=None, ".toList = "default=".toList ++ "None, ".toList := by decide
    rw [hargument, hrequired, hnone, List.append_assoc, skeletonFrom_code_bare hlabel, hdefault]
    rfl
  · rw [hargument, hrequired, String.toList_append, String.toList_append, List.append_assoc,
      List.append_assoc, skeletonFrom_code_bare hlabel, hdefault]
    rfl

/-- A field as its line is read. -/
def Field.shown (f : Field) : ClassField := ⟨f.name, units f.wire, !f.param.required⟩

theorem readField?_line (h : IsNameText f.name) (hne : f.name ≠ "") :
    readField? named f.line = some f.shown := by
  obtain ⟨before, hbefore⟩ := @exists_literalsOf?_line named f h
  have hkey : units "wire" = points "wire" := by decide
  rw [readField?, hbefore, readDeclaration_line h hne, givesDefault_line h]
  simp [hkey, Field.shown, Field.declared]

/-- The fields of a class are read back, in their order. -/
theorem classFields?_paramsClass (hname : e.name = some name) (h : paramsClass e = .ok cls) :
    classFields? named cls = some ((fieldsOf e).map Field.shown) := by
  have hread : ∀ f ∈ fieldsOf e, readField? named f.line = some f.shown := fun f hf =>
    readField?_line (isNameText_of_mem_fieldsOf hf)
      (of_mem_nameFields_name (mem_fieldsOf_iff.mp hf)).1
  rw [classFields?, bodyLines_paramsClass hname h]
  generalize fieldsOf e = fields at hread
  induction fields with
  | nil => rfl
  | cons f rest ih =>
      obtain ⟨hf, hrest⟩ := List.forall_mem_cons.mp hread
      rw [List.map_cons, List.mapM_cons, hf, ih hrest]
      rfl

end Lines

/-- The fields stand for the parameters, whose names are read by `read`: each has one field, under a
name that differs from all others and from what the declarations call into. The required ones come
first, and each group is in the order of the parameters' names. -/
structure Mirrors (read : String → List Nat) (params : NameMap Param) (fields : List ClassField) :
    Prop where
  named : ∀ f ∈ fields, IsIdentifier f.name ∧ f.name ≠ "dataclasses"
  distinct : (fields.map (·.name)).Nodup
  once : ∀ wire ∈ params.names, (fields.map (·.wire)).count (read wire) = 1
  declared : ∀ f ∈ fields, ∃ wire p, params.get? wire = some p ∧ f.wire = read wire ∧
    f.hasDefault = !p.required
  requiredFirst : fields.Pairwise fun f g => f.hasDefault = true → g.hasDefault = true
  increasing : fields.Pairwise fun f g => f.hasDefault = g.hasDefault →
    ∃ a ∈ params.names, ∃ b ∈ params.names, f.wire = read a ∧ g.wire = read b ∧ a < b

section Mirroring

variable {params : List (String × Param)} {taken : List String} {f : Field} {e : Endpoint}
  {named : String → Option Nat} {name : String} {map : NameMap Param} {fields : List ClassField}
  {read other : String → List Nat}

theorem nameFields_names : (nameFields taken params).map (·.name) =
    uniqueIdentifiers taken (params.map fun d => identifier d.1) := by
  rw [nameFields, map_nameInTurn, uniqueIdentifiers, nameInTurn_map]

theorem nameFields_wires : (nameFields taken params).map (·.wire) = params.map (·.1) :=
  map_nameInTurn_eq_map _ fun _ _ => rfl

theorem fieldsOf_perm : (fieldsOf e).Perm (nameFields reservedFields (sortParams e.params)) :=
  List.filter_append_perm _ _

theorem isIdentifier_of_mem_fieldsOf (hf : f ∈ fieldsOf e) :
    IsIdentifier f.name ∧ f.name ≠ "dataclasses" := by
  have hfield := mem_fieldsOf_iff.mp hf
  constructor
  · obtain ⟨d, -, before, -, rfl⟩ := exists_of_mem_nameInTurn hfield
    exact (isLowerIdentifier_identifier d.1).uniqueIdentifier.isIdentifier
  · simpa [reservedFields] using (of_mem_nameFields_name hfield).2

theorem fieldsOf_wires_perm :
    ((fieldsOf e).map (·.wire)).Perm (NameMap.ofPairs e.params).names := by
  have hperm := (@fieldsOf_perm e).map (·.wire)
  rwa [nameFields_wires] at hperm

/-- Required fields come first, and of two fields alike in this the first has the lesser name. -/
theorem pairwise_fieldsOf : (fieldsOf e).Pairwise fun f g =>
    (g.param.required = true → f.param.required = true) ∧
      (f.param.required = g.param.required → f.wire < g.wire) := by
  have hlt : (nameFields reservedFields (sortParams e.params)).Pairwise fun f g =>
      f.wire < g.wire := by
    apply List.pairwise_map.mp
    rw [nameFields_wires]
    exact (NameMap.ofPairs e.params).names_pairwise_lt
  have hgroup : ∀ required : Bool, ((nameFields reservedFields (sortParams e.params)).filter
      (·.param.required == required)).Pairwise fun f g =>
        (g.param.required = true → f.param.required = true) ∧
          (f.param.required = g.param.required → f.wire < g.wire) := by
    intro required
    refine (hlt.filter _).imp_of_mem fun {f g} hf hg hless => ⟨?_, fun _ => hless⟩
    rw [beq_iff_eq.mp (List.mem_filter.mp hf).2, beq_iff_eq.mp (List.mem_filter.mp hg).2]
    exact id
  have hrequired := hgroup true
  have hoptional := hgroup false
  simp only [beq_true, beq_false] at hrequired hoptional
  rw [fieldsOf]
  refine List.pairwise_append.mpr ⟨hrequired, hoptional, fun f hf g hg => ?_⟩
  have hf := (List.mem_filter.mp hf).2
  have hg : g.param.required = false := by simpa using (List.mem_filter.mp hg).2
  simp [hf, hg]

theorem mirrors_units :
    Mirrors units (NameMap.ofPairs e.params) ((fieldsOf e).map Field.shown) := by
  have hwires : ((fieldsOf e).map Field.shown).map (·.wire) =
      ((fieldsOf e).map (·.wire)).map units := by
    simp only [List.map_map]
    rfl
  have hmem : ∀ f ∈ fieldsOf e, f.wire ∈ (NameMap.ofPairs e.params).names := fun f hf =>
    fieldsOf_wires_perm.mem_iff.mp (List.mem_map_of_mem hf)
  constructor
  case named =>
    rw [List.forall_mem_map]
    exact fun f hf => isIdentifier_of_mem_fieldsOf hf
  case distinct =>
    rw [List.map_map]
    have hnodup : ((nameFields reservedFields (sortParams e.params)).map (·.name)).Nodup := by
      rw [nameFields_names]
      exact uniqueIdentifiers_nodup.1
    exact (fieldsOf_perm.map (·.name)).nodup_iff.mpr hnodup
  case once =>
    intro wire hwire
    rw [hwires, List.count_map_of_injective _ _ units_injective, fieldsOf_wires_perm.count_eq]
    exact List.count_eq_one_of_mem (NameMap.names_nodup _) hwire
  case declared =>
    rw [List.forall_mem_map]
    intro f hf
    have hentry := NameMap.mem_entries_iff.mp (of_mem_nameFields (mem_fieldsOf_iff.mp hf))
    exact ⟨f.wire, f.param, hentry, rfl, rfl⟩
  case requiredFirst =>
    rw [List.pairwise_map]
    refine pairwise_fieldsOf.imp fun {f g} h => ?_
    simpa [Field.shown] using mt h.1
  case increasing =>
    rw [List.pairwise_map]
    refine pairwise_fieldsOf.imp_of_mem fun {f g} hf hg h hsame => ?_
    have hrequired : f.param.required = g.param.required := by simpa [Field.shown] using hsame
    exact ⟨f.wire, hmem f hf, g.wire, hmem g hg, rfl, rfl, h.2 hrequired⟩

theorem Mirrors.congr (h : Mirrors read map fields)
    (hread : ∀ wire ∈ map.names, read wire = other wire) : Mirrors other map fields where
  named := h.named
  distinct := h.distinct
  once wire hwire := hread wire hwire ▸ h.once wire hwire
  declared f hf := by
    obtain ⟨wire, p, hp, hwire, hdefault⟩ := h.declared f hf
    exact ⟨wire, p, hp, hread wire (NameMap.mem_names_iff.mpr ⟨p, hp⟩) ▸ hwire, hdefault⟩
  requiredFirst := h.requiredFirst
  increasing := by
    refine h.increasing.imp fun {f g} hfg hsame => ?_
    obtain ⟨a, ha, b, hb, hf, hg, hlt⟩ := hfg hsame
    exact ⟨a, ha, b, hb, hread a ha ▸ hf, hread b hb ▸ hg, hlt⟩

/-- Fields that carry the units of the names carry the names themselves if no name has a character
past the first plane, and only then. -/
theorem Mirrors.points_iff (h : Mirrors units map fields) :
    Mirrors points map fields ↔ ∀ wire ∈ map.names, InFirstPlane wire := by
  constructor
  · intro hpoints wire hwire
    have hcount := hpoints.once wire hwire
    have hmem : points wire ∈ fields.map (·.wire) := List.count_pos_iff.mp (by omega)
    obtain ⟨f, hf, hpoint⟩ := List.mem_map.mp hmem
    obtain ⟨w, -, -, hunits, -⟩ := h.declared f hf
    obtain ⟨rfl, hplane⟩ := eq_of_units_eq_points (hunits.symm.trans hpoint)
    exact hplane
  · exact fun hplane => h.congr fun wire hwire => units_eq_points_iff.mpr (hplane wire hwire)

/-- The class of an endpoint is written unless a parameter may be left out for an integer that is
too long. If it is written, its fields stand for the parameters one by one, and carry their names
exactly if no name has a character past the first plane. -/
theorem class_mirrors_params (named : String → Option Nat) (hname : e.name = some name) :
    (HasLongDefault e → ∀ cls, paramsClass e ≠ .ok cls) ∧
      (¬HasLongDefault e → ∃ cls fields, paramsClass e = .ok cls ∧
        classFields? named cls = some fields ∧ Mirrors units (NameMap.ofPairs e.params) fields ∧
        (Mirrors points (NameMap.ofPairs e.params) fields ↔
          ∀ wire ∈ (NameMap.ofPairs e.params).names, InFirstPlane wire)) := by
  constructor
  · intro hlong cls hcls
    rw [paramsClass, hname] at hcls
    simp only [HasLongDefault] at hlong
    simp [hlong] at hcls
  · intro hshort
    have hcls : paramsClass e = .ok (joinLines (paramsClassLines name (fieldsOf e))) := by
      rw [paramsClass, hname]
      exact if_neg hshort
    exact ⟨_, _, hcls, classFields?_paramsClass hname hcls, mirrors_units, mirrors_units.points_iff⟩

/-- An endpoint with texts as its parameters, of which those with the flag are required. -/
def searchWith (params : List (String × Bool)) : Endpoint :=
  { name := some "search", documentation := none, verbs := [.get]
    paths := [⟨"/", [.literal "/"]⟩]
    params := params.map fun d => (d.1, ⟨.string, d.2, none, none⟩), body := none }

/-- Names that differ and have one identifier, which is a word of the language. -/
def fromEndpoint : Endpoint := searchWith [("from", false), ("from_", false), ("FROM", true)]

theorem class_mirrors_params_from : ∃ cls fields, paramsClass fromEndpoint = .ok cls ∧
    classFields? (fun _ => none) cls = some fields ∧
    fields.map (·.name) = ["from_", "from__", "from___"] ∧
    Mirrors points (NameMap.ofPairs fromEndpoint.params) fields := by
  have hshort : ¬HasLongDefault fromEndpoint := by
    rw [HasLongDefault]
    decide +kernel
  have hplane : ∀ wire ∈ (NameMap.ofPairs fromEndpoint.params).names, InFirstPlane wire := by
    decide +kernel
  have hfields : ((fieldsOf fromEndpoint).map Field.shown).map (·.name) =
      ["from_", "from__", "from___"] := by
    decide +kernel
  obtain ⟨cls, fields, hcls, hread, -, hmirrors⟩ :=
    (class_mirrors_params (e := fromEndpoint) (fun _ => none) rfl).2 hshort
  have hshown := hread.symm.trans (classFields?_paramsClass (e := fromEndpoint) rfl hcls)
  refine ⟨cls, fields, hcls, hread, ?_, hmirrors.mpr hplane⟩
  rw [Option.some.inj hshown]
  exact hfields

/-- A face is read as two surrogates, so no field carries the name of the parameter. -/
theorem class_without_face :
    ∃ cls fields, paramsClass (searchWith [("😀", false)]) = .ok cls ∧
      classFields? (fun _ => none) cls = some fields ∧
      fields = [⟨"param", [0xd83d, 0xde00], true⟩] ∧
      "😀" ∈ (NameMap.ofPairs (searchWith [("😀", false)]).params).names ∧
      (fields.map (·.wire)).count (points "😀") = 0 := by
  obtain ⟨cls, hcls⟩ : ∃ cls, paramsClass (searchWith [("😀", false)]) = .ok cls := ⟨_, rfl⟩
  have hread : classFields? (fun _ => none) cls =
      some ((fieldsOf (searchWith [("😀", false)])).map Field.shown) :=
    classFields?_paramsClass rfl hcls
  have hfields : (fieldsOf (searchWith [("😀", false)])).map Field.shown =
      [⟨"param", [0xd83d, 0xde00], true⟩] := by
    decide +kernel
  rw [hfields] at hread
  exact ⟨cls, _, hcls, hread, rfl, by decide +kernel, by decide⟩

end Mirroring

end EndpointBindings.Emission
