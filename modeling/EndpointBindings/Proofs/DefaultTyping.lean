import EndpointBindings.Proofs.DefaultFits
import EndpointBindings.Proofs.FractionText
import EndpointBindings.Proofs.LiteralMeaning
import EndpointBindings.Proofs.RegisteredEmission
import EndpointBindings.Proofs.SourceLines

/-!
The types of emitted defaults. What a document gives as a default fits the declared type, so the
literal that is emitted for it belongs to the type hint beside it; for a type that is not known the
hint admits every literal. The one default without a literal is an integer too long to be written,
and it keeps the whole module from being written.
-/

namespace EndpointBindings.Emission

open EndpointBindings.Number EndpointBindings.Text

section Expressions

variable (named : String → Option Nat)

/-- One text between double quotes. -/
def IsTextLiteral (source : String) : Prop :=
  ∃ points, readText? named source.toList = some (points, [])

/-- A fraction, or a number without digits by its name. -/
def IsFloatExpression (source : String) : Prop :=
  (∃ cs, IsFraction cs ∧ (source.toList = cs ∨ source.toList = '-' :: cs)) ∨
    source ∈ ["float(\"inf\")", "float(\"-inf\")", "float(\"nan\")"]

/-- The expressions that a type hint admits as a default, for each type with its hint. A tuple of
one text has a comma, without which it would be that text. -/
inductive Admits : ValueType → (hint source : String) → Prop
  | string {source : String} (h : IsTextLiteral named source) : Admits .string "str" source
  | time {source : String} (h : IsTextLiteral named source) : Admits .time "str" source
  | boolean {source : String} (h : source = "True" ∨ source = "False") :
      Admits .boolean "bool" source
  | integer {kind : NumberKind} {width : Nat} {i : Int} {source : String}
      (hwidth : kind.width? = some width) (h : evaluate? named source = some (.integer i))
      (hlow : (NumberKind.bounds width).1 ≤ i) (hhigh : i ≤ (NumberKind.bounds width).2) :
      Admits (.number kind) "int" source
  | float {kind : NumberKind} {source : String} (hwidth : kind.width? = none)
      (h : IsFloatExpression source) : Admits (.number kind) "float" source
  | list {items : List (List Nat)} {source : String}
      (h : evaluate? named source = some (.tuple items)) : Admits .list "Sequence[str]" source
  | choice {options : Options} {source : String} (h : source ∈ options.texts.map Escaped.ascii) :
      Admits (.choice options)
        ("Literal[" ++ ", ".intercalate (options.texts.map Escaped.ascii) ++ "]") source
  | other {name source : String}
      (h : IsTextLiteral named source ∨ IsFloatExpression source ∨
        ∃ m, evaluate? named source = some m) : Admits (.other name) "Any" source

end Expressions

section Literals

variable {named : String → Option Nat} {type : ValueType} {d : Default}

theorem isTextLiteral_ascii (s : String) : IsTextLiteral named (Escaped.ascii s) := by
  have hread := @readText?_ascii named [] s (by simp)
  rw [List.append_nil] at hread
  exact ⟨_, hread⟩

theorem isFloatExpression_floatLiteral (x : Binary64) : IsFloatExpression (floatLiteral x) := by
  rw [floatLiteral]
  split
  · rename_i hx
    exact .inl (isFraction_text hx)
  · rename_i hx
    cases x with
    | finite => exact absurd rfl hx
    | infinite negative =>
        cases negative with
        | false => exact .inr (by decide)
        | true => exact .inr (by decide)
    | nan => exact .inr (by decide)

theorem evaluate?_boolLiteral (b : Bool) : evaluate? named (boolLiteral b) = some (.flag b) := by
  cases b <;> simp [boolLiteral, evaluate?]

theorem evaluate?_short {i : Int} (h : isLong i = false) :
    evaluate? named (toString i) = some (.integer i) := by
  rw [evaluate?_integer, h]
  rfl

/-- The literal of a default that can be written is admitted by the hint of the type that the
default fits. -/
theorem admits_of_fits (h : d.Fits type) (hshort : ∀ i, d = .integer i → isLong i = false) :
    Admits named type (TypeHint.ofType type).render (literal d) := by
  cases h with
  | string s => exact .string (isTextLiteral_ascii s)
  | time s => exact .time (isTextLiteral_ascii s)
  | boolean b => exact .boolean (by cases b <;> simp [literal, boolLiteral])
  | list items => exact .list (evaluate?_tupleLiteral items)
  | choice hs => exact .choice (List.mem_map_of_mem hs)
  | @integer kind width i hwidth hlow hhigh =>
      have hhint : TypeHint.ofType (.number kind) = .int := by
        simp [TypeHint.ofType, NumberKind.isIntegral, hwidth]
      rw [hhint]
      exact .integer hwidth (evaluate?_short (hshort i rfl)) hlow hhigh
  | @float kind hwidth x =>
      have hhint : TypeHint.ofType (.number kind) = .float := by
        simp [TypeHint.ofType, NumberKind.isIntegral, hwidth]
      rw [hhint]
      exact .float hwidth (isFloatExpression_floatLiteral x)
  | other name d =>
      apply Admits.other
      cases d with
      | text s => exact .inl (isTextLiteral_ascii s)
      | flag b => exact .inr (.inr ⟨_, evaluate?_boolLiteral b⟩)
      | integer i => exact .inr (.inr ⟨_, evaluate?_short (hshort i rfl)⟩)
      | float x => exact .inr (.inl (isFloatExpression_floatLiteral x))
      | list items => exact .inr (.inr ⟨_, evaluate?_tupleLiteral items⟩)

end Literals

section Fields

variable {e : Endpoint} {params : List (String × Param)} {wire : String}
  {p : Param} {d : Default} {f : Field} {text : String} {bindings : List Binding}

/-- The line of a field with a default. -/
def defaultLine (name hint default wire : String) : String :=
  "    " ++ (name ++ ": " ++ (hint ++ " = dataclasses.field(" ++ ("default=" ++ default ++ ", ") ++
    ("metadata=\x7b\"wire\": " ++ Escaped.ascii wire ++ "\x7d") ++ ")"))

theorem line_eq_defaultLine (hrequired : f.param.required = false)
    (hdefault : f.param.default = some d) :
    f.line = defaultLine f.name (TypeHint.ofType f.param.type).render (literal d) f.wire := by
  have hhint : f.hint = TypeHint.ofType f.param.type := by simp [Field.hint, hdefault]
  have hargument : f.defaultArgument = "default=" ++ literal d ++ ", " := by
    rw [Field.defaultArgument, Field.defaultText?, hrequired, hdefault]
    rfl
  rw [Field.line_eq, Field.code, hhint, hargument]
  rfl

theorem exists_field_of_mem (taken : List String) (h : (wire, p) ∈ params) :
    ∃ f ∈ nameFields taken params, f.wire = wire ∧ f.param = p := by
  obtain ⟨name, hname⟩ := Naming.exists_mem_nameInTurn h
  exact ⟨_, hname, rfl, rfl⟩

theorem line_mem_paramsClassLines {fields : List Field} (h : f ∈ fields) :
    f.line ∈ paramsClassLines wire fields := by
  have hne : fields.isEmpty = false := by simpa using List.ne_nil_of_mem h
  have hline : f.line ∈ "" :: fields.map Field.line :=
    List.mem_cons_of_mem _ (List.mem_map_of_mem h)
  rw [paramsClassLines, hne]
  exact List.mem_append_right _ hline

/-- An optional parameter of a type that is not known has an integer too long to be written as its
default. -/
def HasLongUnknown (e : Endpoint) : Prop :=
  ∃ wire p name i, (NameMap.ofPairs e.params).get? wire = some p ∧ p.required = false ∧
    p.type = .other name ∧ p.default = some (.integer i) ∧ isLong i = true

/-- The lines of a class stand in its module. -/
theorem infix_sourceLines_moduleText (h : moduleText e bindings = .ok text) :
    ∃ cls, paramsClass e = .ok cls ∧ sourceLines cls <:+: sourceLines text := by
  obtain ⟨cls, hcls, h⟩ := bind_eq_ok.mp h
  obtain rfl := Except.ok.inj h
  have hmem : cls ∈ moduleLines e cls ++ bindings.flatMap fun b => ["", "", b.body] :=
    List.mem_append_left _ (by simp [moduleLines])
  refine ⟨cls, hcls, ?_⟩
  rw [sourceLines_endLines]
  exact (List.infix_of_mem_flatten (List.mem_map_of_mem hmem)).trans
    (List.prefix_append _ _).isInfix

theorem mem_sourceLines_moduleText (h : moduleText e bindings = .ok text) :
    ∃ cls, paramsClass e = .ok cls ∧ ∀ l ∈ sourceLines cls, l ∈ sourceLines text := by
  obtain ⟨cls, hcls, hlines⟩ := infix_sourceLines_moduleText h
  exact ⟨cls, hcls, fun l hl => hlines.subset hl⟩

end Fields

section Documents

variable {document : Fields} {e : Endpoint} {wire : String} {p : Param} {d : Default}

/-- A default of a document fits the type that is declared beside it. -/
theorem fits_of_assemble (h : assemble document = .ok e)
    (hwire : (NameMap.ofPairs e.params).get? wire = some p) (hdefault : p.default = some d) :
    d.Fits p.type := by
  obtain ⟨fields, url, parts, declared, -, he⟩ := Assembly.assemble_eq_ok.mp h
  have hmem : (wire, p) ∈ e.params := NameMap.mem_of_mem_ofPairs (NameMap.mem_entries_iff.mpr hwire)
  obtain ⟨entry, -, -, hparam⟩ :=
    exists_of_mem_forall₂ (Assembly.params_eq_ok.mp he.params_eq).flip hmem
  obtain ⟨declaration, -, -, -, -, hvalue⟩ := Assembly.param_eq_ok.mp hparam
  rcases hvalue with ⟨-, hnone⟩ | ⟨-, d', hd', hfit⟩
  · cases hnone.symm.trans hdefault
  · obtain rfl := Option.some.inj (hd'.symm.trans hdefault)
    exact Default.fits_of_fit hfit

theorem hasLongDefault_iff (h : assemble document = .ok e) (stem : String) :
    HasLongDefault (e.orNamed stem) ↔ HasLongUnknown e := by
  have hfields : fieldsOf (e.orNamed stem) = fieldsOf e := rfl
  rw [HasLongDefault, hfields, List.any_eq_true]
  constructor
  · rintro ⟨f, hf, hlong⟩
    have hwire := NameMap.mem_entries_iff.mp (of_mem_nameFields (mem_fieldsOf_iff.mp hf))
    unfold Field.hasLongDefault at hlong
    split at hlong
    · rename_i i hi
      simp only [Bool.and_eq_true, Bool.not_eq_true'] at hlong
      obtain ⟨name, hname⟩ := (fits_of_assemble h hwire hi).exists_other hlong.2
      exact ⟨f.wire, f.param, name, i, hwire, hlong.1, hname, hi, hlong.2⟩
    · exact absurd hlong Bool.false_ne_true
  · rintro ⟨wire, p, name, i, hwire, hrequired, -, hi, hlong⟩
    obtain ⟨f, hf, rfl, rfl⟩ := exists_field_of_mem reservedFields
      (NameMap.mem_entries_iff.mpr hwire)
    exact ⟨f, mem_fieldsOf_iff.mpr hf, by simp [Field.hasLongDefault, hi, hrequired, hlong]⟩

/-- The module of a document is written unless an optional parameter of an unknown type has an
integer too long to be written as its default. If it is written, every optional parameter with a
default has a field there whose literal is admitted by the type hint beside it. -/
theorem moduleOf_defaults_admitted (named : String → Option Nat)
    (hassemble : assemble document = .ok e) (stem : String) :
    (HasLongUnknown e → moduleOf (e.orNamed stem) = .error .tooManyDigits) ∧
      (¬HasLongUnknown e → ∃ text, moduleOf (e.orNamed stem) = .ok text ∧
        ∀ wire p d, (NameMap.ofPairs e.params).get? wire = some p → p.required = false →
          p.default = some d → ∃ name hint default,
            defaultLine name hint default wire ∈ sourceLines text ∧
              Admits named p.type hint default) := by
  obtain ⟨hverbs, hpaths⟩ := Assembly.isEmittable_of_assemble hassemble
  have hemittable : IsEmittable (e.name.getD stem) (e.orNamed stem) := ⟨rfl, hverbs, hpaths⟩
  have herror := fun d => moduleOf_eq_error_iff (d := d) hemittable
  simp only [hasLongDefault_iff hassemble] at herror
  refine ⟨fun hlong => (herror _).mpr ⟨rfl, hlong⟩, fun hshort => ?_⟩
  cases htext : moduleOf (e.orNamed stem) with
  | error d => exact absurd ((herror d).mp htext).2 hshort
  | ok text =>
      refine ⟨text, rfl, fun wire p d hwire hrequired hdefault => ?_⟩
      have hfits := fits_of_assemble hassemble hwire hdefault
      -- Only an unknown type has integers of any length, and those are excluded.
      have hwritten : ∀ i, d = .integer i → isLong i = false := by
        rintro i rfl
        cases hlong : isLong i with
        | false => rfl
        | true =>
            obtain ⟨name, hname⟩ := hfits.exists_other hlong
            exact absurd ⟨wire, p, name, i, hwire, hrequired, hname, hdefault, hlong⟩ hshort
      obtain ⟨f, hf, rfl, rfl⟩ := exists_field_of_mem reservedFields
        (NameMap.mem_entries_iff.mpr hwire)
      rw [moduleOf_eq hemittable] at htext
      obtain ⟨cls, hcls, hlines⟩ := mem_sourceLines_moduleText htext
      have hline : f.line ∈ sourceLines cls := by
        rw [sourceLines_paramsClass hemittable.1 hcls]
        exact line_mem_paramsClassLines (mem_fieldsOf_iff.mpr hf)
      rw [line_eq_defaultLine hrequired hdefault] at hline
      exact ⟨_, _, _, hlines _ hline, admits_of_fits hfits hwritten⟩

/-- A document with two parameters, of which one has a type that is not known. -/
def nestedDocument : Fields :=
  [(.text "methods", .list [.text "GET"]),
   (.text "url", .mapping [(.text "path", .text "/"), (.text "params", .mapping
     [(.text "depth", .mapping [(.text "type", .text "byte"), (.text "default", .int (-128))]),
      (.text "mark", .mapping [(.text "type", .text "token"), (.text "default", .text "x")])])])]

theorem moduleOf_defaults_admitted_nested :
    ∃ e text, assemble nestedDocument = .ok e ∧ moduleOf (e.orNamed "nested") = .ok text ∧
      ∃ name hint default, defaultLine name hint default "depth" ∈ sourceLines text ∧
        Admits (fun _ => none) (.number .byte) hint default := by
  have hassembled : isOkWith (fun e =>
      e.params == [("depth", ⟨.number .byte, false, some (.integer (-128)), none⟩),
        ("mark", ⟨.other "token", false, some (.text "x"), none⟩)])
      (assemble nestedDocument) = true := by decide +kernel
  obtain ⟨e, he, hsame⟩ := exists_of_isOkWith hassembled
  have hentries := beq_iff_eq.mp hsame
  have hshort : ¬HasLongUnknown e := by
    rintro ⟨wire, p, name, i, hwire, -, htype, hdefault, -⟩
    have hmem : (wire, p) ∈ e.params :=
      NameMap.mem_of_mem_ofPairs (NameMap.mem_entries_iff.mpr hwire)
    rw [hentries] at hmem
    simp only [List.mem_cons, List.not_mem_nil, or_false, Prod.mk.injEq] at hmem
    rcases hmem with ⟨-, rfl⟩ | ⟨-, rfl⟩
    · cases htype
    · cases hdefault
  obtain ⟨text, htext, hadmitted⟩ :=
    (moduleOf_defaults_admitted (fun _ => none) he "nested").2 hshort
  have hdepth : (NameMap.ofPairs e.params).get? "depth" =
      some ⟨.number .byte, false, some (.integer (-128)), none⟩ := by
    rw [hentries]
    decide +kernel
  exact ⟨e, text, he, htext, hadmitted _ _ _ hdepth rfl rfl⟩

/-- An integer too long to be written is a default all the same, and has no field. -/
theorem moduleOf_without_default :
    ∃ e p, assemble (tokenDocument (.int (10 ^ 4300 : Nat))) = .ok e ∧
      (NameMap.ofPairs e.params).get? "q" = some p ∧ p.required = false ∧
      p.default = some (.integer (10 ^ 4300 : Nat)) ∧
      ∀ text, moduleOf (e.orNamed "long") ≠ .ok text := by
  refine ⟨_, _, rfl, rfl, rfl, rfl, fun text htext => ?_⟩
  have hemittable : ∀ default, IsEmittable "long" (tokenEndpoint "long" default) :=
    fun default => ⟨rfl, by simp [tokenEndpoint], by simp [tokenEndpoint]⟩
  have hlong : HasLongDefault (tokenEndpoint "long" (some (.integer (10 ^ 4300 : Nat)))) := by
    rw [HasLongDefault]
    decide +kernel
  have herror := (moduleOf_eq_error_iff (hemittable _)).mpr ⟨rfl, hlong⟩
  exact absurd (htext.symm.trans herror) (by simp)

end Documents

end EndpointBindings.Emission
