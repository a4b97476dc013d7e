import EndpointBindings.Proofs.EndpointAgreement
import EndpointBindings.Proofs.PackageModules

/-!
The classes of endpoints that agree in everything but free text differ inside of literals only. The
lines of a class are followed in two runs, from the fields that are planned to the text.
-/

namespace EndpointBindings.Emission

open EndpointBindings.Naming EndpointBindings.Text

section Fields

variable {f g : Field} {fields fields' : List Field} {taken : List String}

structure FieldAgrees (f g : Field) : Prop where
  name : f.name = g.name
  plainName : IsPlain f.name
  wire : f.wire = g.wire
  param : ParamAgrees f.param g.param

theorem FieldAgrees.isSome_default (h : FieldAgrees f g) :
    f.param.default.isSome = g.param.default.isSome := by
  have hdefault := h.param.default
  generalize f.param.default = d, g.param.default = d' at hdefault
  cases hdefault <;> rfl

theorem FieldAgrees.hint (h : FieldAgrees f g) : Same f.hint.render g.hint.render := by
  have hcond : (f.param.required || f.param.default.isSome ||
        TypeHint.ofType f.param.type = .any) =
      (g.param.required || g.param.default.isSome || TypeHint.ofType g.param.type = .any) := by
    rw [h.param.required, h.isSome_default]
    simp only [ofType_eq_any_iff h.param.type]
  unfold Field.hint
  dsimp only
  rw [hcond]
  split
  · exact same_hint h.param.type
  · exact same_optionalHint h.param.type

/-- The key of the metadata is a literal like the wire name. -/
theorem Field.metadata_eq (f : Field) : f.metadata =
    "metadata=\x7b" ++ Escaped.ascii "wire" ++ ": " ++ Escaped.ascii f.wire ++ "\x7d" := by
  have hparts : "metadata=\x7b\"wire\": " = "metadata=\x7b" ++ Escaped.ascii "wire" ++ ": " := by
    decide
  exact congrArg (· ++ Escaped.ascii f.wire ++ "\x7d") hparts

theorem same_metadata (f g : Field) : Same f.metadata g.metadata := by
  have hbrace : IsPlain "metadata=\x7b" := by decide
  have hkey := (hbrace.same.append_before (sameBefore_ascii "wire" "wire")).append
    (by decide : IsPlain ": ") (by decide)
  rw [Field.metadata_eq, Field.metadata_eq]
  exact (hkey.append_before (sameBefore_ascii _ _)).append (by decide) (by decide)

/-- The part of a declaration that gives the default. -/
def Field.defaultArgument (f : Field) : String :=
  match f.defaultText? with
  | none => ""
  | some d => "default=" ++ d ++ ", "

theorem FieldAgrees.defaultArgument (h : FieldAgrees f g) :
    Same f.defaultArgument g.defaultArgument := by
  have hlabel : IsPlain "default=" := by decide
  have hdefault := h.param.default
  unfold Field.defaultArgument Field.defaultText?
  rw [h.param.required]
  cases g.param.required with
  | true => exact IsPlain.same (a := "") (by decide)
  | false =>
      generalize f.param.default = d, g.param.default = d' at hdefault
      cases hdefault with
      | none => exact IsPlain.same (by decide)
      | some hd =>
          have hargument := hlabel.same.append_before (same_literal hd)
          exact hargument.append (by decide) (by decide)

theorem FieldAgrees.line (h : FieldAgrees f g) : Same f.line g.line := by
  have hline : ∀ f : Field, f.line = "    " ++ f.name ++ ": " ++ (f.hint.render ++
      " = dataclasses.field(" ++ f.defaultArgument ++ f.metadata ++ ")") := fun f => rfl
  have hname : Same f.name g.name := h.name ▸ h.plainName.same
  have hindent : IsPlain "    " := by decide
  have hcolon : IsPlain ": " := by decide
  have hcall : IsPlain " = dataclasses.field(" := by decide
  have hclose : IsPlain ")" := by decide
  rw [hline f, hline g]
  refine ((hindent.same.append hname).append hcolon.same).append ?_
  exact (((h.hint.append hcall.same).append h.defaultArgument).append (same_metadata f g)).append
    hclose.same

theorem FieldAgrees.hasLongDefault_eq (h : FieldAgrees f g) :
    f.hasLongDefault = g.hasLongDefault := by
  have hdefault := h.param.default
  unfold Field.hasLongDefault
  rw [h.param.required]
  generalize f.param.default = d, g.param.default = d' at hdefault
  cases hdefault with
  | none => rfl
  | some hd => cases hd <;> rfl

theorem FieldAgrees.isPlain_name (h : FieldAgrees f g) : IsPlain g.name := h.name ▸ h.plainName

theorem isSilent_docLine (h : IsPlain f.name) : IsSilent f.docLine := by
  have hindent : IsPlain "        " := by decide
  have hcolon : IsPlain ":" := by decide
  unfold Field.docLine
  refine ((hindent.append h).append hcolon).isSilent.append ?_
  split
  · exact IsPlain.isSilent (by decide)
  · exact (IsPlain.isSilent (by decide)).append (isSilent_docstringText _)

theorem forall₂_nameFields {l l' : List (String × Param)}
    (h : List.Forall₂ (fun a b => a.1 = b.1 ∧ ParamAgrees a.2 b.2) l l') :
    List.Forall₂ FieldAgrees (nameFields taken l) (nameFields taken l') := by
  refine forall₂_nameInTurn h (fun a b hab => by rw [hab.1]) fun a b before hab => ?_
  exact ⟨rfl, isNameText_identifier.uniqueIdentifier.isPlain, hab.1, hab.2⟩

/-- The order of the fields hangs on the names of the parameters alone. -/
theorem forall₂_sortParams {ps qs : List (String × Param)} (h : ParamsAgree ps qs) :
    List.Forall₂ (fun a b => a.1 = b.1 ∧ ParamAgrees a.2 b.2) (sortParams ps) (sortParams qs) := by
  apply NameMap.forall₂_entries
  · intro wire p hp
    obtain ⟨q, hq, hagrees⟩ := h.agrees wire p ((NameMap.get?_ofPairs_iff h.nodup).mp hp)
    exact ⟨q, (NameMap.get?_ofPairs_iff h.nodup').mpr hq, hagrees⟩
  · intro wire q hq
    obtain ⟨p, hp, -⟩ := h.agrees' wire q ((NameMap.get?_ofPairs_iff h.nodup').mp hq)
    exact ⟨p, (NameMap.get?_ofPairs_iff h.nodup).mpr hp⟩

theorem forall₂_fieldsOf {e e' : Endpoint} (h : EndpointAgrees e e') :
    List.Forall₂ FieldAgrees (fieldsOf e) (fieldsOf e') := by
  have hall : List.Forall₂ FieldAgrees (nameFields reservedFields (sortParams e.params))
      (nameFields reservedFields (sortParams e'.params)) :=
    forall₂_nameFields (forall₂_sortParams h.params)
  apply List.rel_append
  · refine List.rel_filter (fun f g hfg => ?_) hall
    simp only [hfg.param.required]
  · refine List.rel_filter (fun f g hfg => ?_) hall
    simp only [hfg.param.required]

theorem any_hasLongDefault_eq (h : List.Forall₂ FieldAgrees fields fields') :
    fields.any Field.hasLongDefault = fields'.any Field.hasLongDefault := by
  induction h with
  | nil => rfl
  | cons hfirst _ ih => rw [List.any_cons, List.any_cons, hfirst.hasLongDefault_eq, ih]

theorem plainName_of_forall₂ (h : List.Forall₂ FieldAgrees fields fields') :
    (∀ f ∈ fields, IsPlain f.name) ∧ ∀ g ∈ fields', IsPlain g.name := by
  induction h with
  | nil => simp
  | cons hfirst _ ih =>
      exact ⟨List.forall_mem_cons.mpr ⟨hfirst.plainName, ih.1⟩,
        List.forall_mem_cons.mpr ⟨hfirst.isPlain_name, ih.2⟩⟩

end Fields

section ParamsClass

variable {e e' : Endpoint} {endpoint : String} {fields fields' : List Field}

/-- The lines of the class docstring about the fields. -/
def attributeLines (fields : List Field) : List String :=
  if fields.isEmpty then [] else ["", "    Attributes:"] ++ fields.map Field.docLine

/-- The lines of the class body behind its docstring. -/
def fieldLines (fields : List Field) : List String :=
  if fields.isEmpty then [] else "" :: fields.map Field.line

theorem paramsClassLines_eq :
    paramsClassLines endpoint fields =
      ["@dataclasses.dataclass(frozen=True)", "class " ++ className endpoint ++ ":"] ++
        (["    " ++ "\"\"\"" ++
            ("Query parameters accepted by \x60\x60" ++ docstringText endpoint ++ "\x60\x60.")] ++
          attributeLines fields ++ ["    " ++ "\"\"\""]) ++ fieldLines fields := by
  have hopen : "    \"\"\"Query parameters accepted by \x60\x60" =
      "    " ++ "\"\"\"" ++ "Query parameters accepted by \x60\x60" := by decide
  have hclose : "    \"\"\"" = "    " ++ "\"\"\"" := by decide
  unfold paramsClassLines attributeLines fieldLines
  rw [hopen, hclose]
  simp only [String.append_assoc, List.cons_append, List.nil_append, List.append_assoc]

theorem isSilent_attributeLines (h : ∀ f ∈ fields, IsPlain f.name) :
    ∀ l ∈ attributeLines fields, IsSilent l := by
  intro l hl
  unfold attributeLines at hl
  split at hl
  · exact absurd hl List.not_mem_nil
  · rcases List.mem_append.mp hl with hl | hl
    · have hplain : ∀ l ∈ ["", "    Attributes:"], IsPlain l := by decide
      exact (hplain l hl).isSilent
    · obtain ⟨f, hf, rfl⟩ := List.mem_map.mp hl
      exact isSilent_docLine (h f hf)

theorem sameLines_fieldLines (h : List.Forall₂ FieldAgrees fields fields') :
    SameLines (fieldLines fields) (fieldLines fields') := by
  cases h with
  | nil => exact .inl ⟨rfl, rfl⟩
  | cons hfirst hrest =>
      refine SameLines.append (l := [""]) (m := [""]) (.singleton (IsPlain.same (by decide))) ?_
      refine .of_forall₂ (List.rel_map (fun f g hfg => ?_) (List.Forall₂.cons hfirst hrest))
      exact FieldAgrees.line hfg

theorem sameLines_paramsClassLines (h : List.Forall₂ FieldAgrees fields fields') :
    SameLines (paramsClassLines endpoint fields) (paramsClassLines endpoint fields') := by
  have hclass : IsPlain ("class " ++ className endpoint ++ ":") :=
    ((by decide : IsPlain "class ").append isPlain_className).append (by decide)
  have hdoc : IsSilent
      ("Query parameters accepted by \x60\x60" ++ docstringText endpoint ++ "\x60\x60.") :=
    ((IsPlain.isSilent (by decide)).append (isSilent_docstringText _)).append
      (IsPlain.isSilent (by decide))
  obtain ⟨hnames, hnames'⟩ := plainName_of_forall₂ h
  rw [paramsClassLines_eq, paramsClassLines_eq]
  refine (SameLines.append (.of_plain ?_) ?_).append (sameLines_fieldLines h)
  · exact List.forall_mem_cons.mpr ⟨by decide, List.forall_mem_singleton.mpr hclass⟩
  · exact sameLines_docstring (by decide)
      (isDocstring_lines (by decide) hdoc (isSilent_attributeLines hnames))
      (isDocstring_lines (by decide) hdoc (isSilent_attributeLines hnames'))

/-- Two computations that fail alike, or give sources that are the same. -/
def SameResults (x y : Except Defect String) : Prop :=
  (∃ d, x = .error d ∧ y = .error d) ∨ ∃ a b, x = .ok a ∧ y = .ok b ∧ Same a b

theorem sameResults_paramsClass (h : EndpointAgrees e e') :
    SameResults (paramsClass e) (paramsClass e') := by
  have hfields := forall₂_fieldsOf h
  unfold paramsClass
  rw [h.name]
  split
  · exact .inl ⟨_, rfl, rfl⟩
  · dsimp only
    rw [any_hasLongDefault_eq hfields]
    split
    · exact .inl ⟨_, rfl, rfl⟩
    · exact .inr ⟨_, _, rfl, rfl, (sameLines_paramsClassLines hfields).same⟩

end ParamsClass

end EndpointBindings.Emission
