import EndpointBindings.Proofs.BindingOrder
import EndpointBindings.Proofs.EndpointAgreement
import EndpointBindings.Proofs.PackageModules

/-!
The functions of endpoints that agree in everything but free text differ inside of literals only.
The lines of a function are followed in two runs, from the arguments that are planned to the text.
-/

namespace EndpointBindings.Emission

open EndpointBindings.Naming EndpointBindings.Text

section Functions

variable {f g : Function} {p q : PartArgument} {a b : Argument}

structure PartArgumentAgrees (p q : PartArgument) : Prop where
  name : p.name = q.name
  plainName : IsPlain p.name
  part : PartAgrees p.part q.part

structure FunctionAgrees (f g : Function) : Prop where
  name : f.name = g.name
  plainName : IsPlain f.name
  verb : f.verb = g.verb
  parts : List.Forall₂ PartArgumentAgrees f.parts g.parts
  paramsClass : f.paramsClass = g.paramsClass
  plainClass : IsPlain f.paramsClass
  paramsRequired : f.paramsRequired = g.paramsRequired
  body : Option.Rel BodyAgrees f.body g.body

theorem PartArgumentAgrees.same_name (h : PartArgumentAgrees p q) : Same p.name q.name :=
  h.name ▸ h.plainName.same

theorem FunctionAgrees.isSome_body (h : FunctionAgrees f g) : f.body.isSome = g.body.isSome := by
  have hbody := h.body
  generalize f.body = b, g.body = c at hbody
  cases hbody <;> rfl

theorem FunctionAgrees.bodyRequired (h : FunctionAgrees f g) :
    f.bodyRequired = g.bodyRequired := by
  have hbody := h.body
  unfold Function.bodyRequired
  generalize f.body = b, g.body = c at hbody
  cases hbody with
  | none => rfl
  | some hagrees => exact hagrees.required

/-- The line of an argument. -/
def argumentLine (a : Argument) : String := "    " ++ a.render ++ ","

theorem same_argumentLine (hname : a.name = b.name) (hplain : IsPlain a.name)
    (hhint : Same a.hint.render b.hint.render) (hdefault : a.hasDefault = b.hasDefault) :
    Same (argumentLine a) (argumentLine b) := by
  have hindent : IsPlain "    " := by decide
  have hcolon : IsPlain ": " := by decide
  have hend : IsPlain "," := by decide
  have hnone : IsPlain (if b.hasDefault then " = None" else "") := by split <;> decide
  unfold argumentLine Argument.render
  rw [hdefault]
  have hsame : Same a.name b.name := hname ▸ hplain.same
  exact (hindent.same.append (((hsame.append hcolon.same).append hhint).append
    hnone.same)).append hend.same

theorem same_plainArgument {name : String} {hint : TypeHint} {hasDefault : Bool}
    (hname : IsPlain name) (hhint : IsPlain hint.render) :
    Same (argumentLine ⟨name, hint, hasDefault⟩) (argumentLine ⟨name, hint, hasDefault⟩) :=
  same_argumentLine rfl hname hhint.same rfl

theorem sameLines_arguments (h : FunctionAgrees f g) :
    SameLines (f.arguments.map argumentLine) (g.arguments.map argumentLine) := by
  have hclass : IsPlain (TypeHint.named f.paramsClass).render := h.plainClass
  have hoptional : IsPlain (TypeHint.optional (.named f.paramsClass)).render :=
    ((by decide : IsPlain "Optional[").append h.plainClass).append (by decide)
  have hparts : SameLines ((f.parts.map fun p => ⟨p.name, .ofType p.part.type, false⟩).map
        argumentLine)
      ((g.parts.map fun p => ⟨p.name, .ofType p.part.type, false⟩).map argumentLine) := by
    rw [List.map_map, List.map_map]
    refine .of_forall₂ (List.rel_map (fun p q hpq => ?_) h.parts)
    exact same_argumentLine hpq.name hpq.plainName (same_hint hpq.part.type) rfl
  have hbody : ∀ optional, SameLines [argumentLine ⟨"body", .any, optional⟩]
      [argumentLine ⟨"body", .any, optional⟩] := fun _ =>
    .singleton (same_plainArgument (by decide) (by decide))
  have hparams : IsPlain "params" := by decide
  unfold Function.arguments
  rw [h.bodyRequired, ← h.paramsClass, h.paramsRequired, h.isSome_body]
  simp only [List.map_append]
  refine (((SameLines.append ?_ hparts).append ?_).append ?_).append ?_
  · exact .singleton (same_plainArgument (by decide) (by decide))
  · split
    · exact hbody false
    · exact .inl ⟨rfl, rfl⟩
  · split
    · exact .singleton (same_plainArgument hparams hclass)
    · exact .singleton (same_plainArgument hparams hoptional)
  · split
    · exact hbody true
    · exact .inl ⟨rfl, rfl⟩

theorem isPlain_names (h : FunctionAgrees f g) :
    (∀ p ∈ f.parts, IsPlain p.name) ∧ ∀ q ∈ g.parts, IsPlain q.name := by
  have hparts := h.parts
  generalize f.parts = ps, g.parts = qs at hparts
  induction hparts with
  | nil => simp
  | cons hfirst _ ih =>
      exact ⟨List.forall_mem_cons.mpr ⟨hfirst.plainName, ih.1⟩,
        List.forall_mem_cons.mpr ⟨hfirst.name ▸ hfirst.plainName, ih.2⟩⟩

theorem of_mem_described {name : String} {description : Option String} {d : String × String}
    (h : d ∈ Function.described name description) : d.1 = name ∧ IsSilent d.2 := by
  unfold Function.described at h
  split at h
  · exact absurd h List.not_mem_nil
  · exact absurd h List.not_mem_nil
  · obtain rfl := List.mem_singleton.mp h
    exact ⟨rfl, isSilent_docstringText _⟩

theorem of_mem_argumentDocs (hparts : ∀ p ∈ f.parts, IsPlain p.name) {d : String × String}
    (h : d ∈ f.argumentDocs) : IsPlain d.1 ∧ IsSilent d.2 := by
  rcases List.mem_append.mp h with h | h
  · obtain ⟨p, hp, h⟩ := List.mem_flatMap.mp h
    obtain ⟨hname, htext⟩ := of_mem_described h
    exact ⟨hname ▸ hparts p hp, htext⟩
  · obtain ⟨hname, htext⟩ := of_mem_described h
    exact ⟨hname ▸ by decide, htext⟩

/-- The docstring of a function is one literal, whatever the descriptions in it. -/
theorem isDocstring_docLines (hparts : ∀ p ∈ f.parts, IsPlain p.name) :
    IsDocstring "    " f.docLines := by
  have hquotes : "    \"\"\"" = "    " ++ "\"\"\"" := by decide
  have hindent : IsPlain "        " := by decide
  have hcolon : IsPlain ": " := by decide
  have hlines : ∀ l ∈ ["", "    Args:"] ++
      f.argumentDocs.map (fun d => "        " ++ d.1 ++ ": " ++ d.2), IsSilent l := by
    intro l hl
    rcases List.mem_append.mp hl with hl | hl
    · have hplain : ∀ l ∈ ["", "    Args:"], IsPlain l := by decide
      exact (hplain l hl).isSilent
    · obtain ⟨d, hd, rfl⟩ := List.mem_map.mp hl
      obtain ⟨hname, htext⟩ := of_mem_argumentDocs hparts hd
      exact ((hindent.append hname).append hcolon).isSilent.append htext
  have hsummary : IsSilent f.summary := isSilent_docstringText _
  unfold Function.docLines
  rw [hquotes]
  split
  · exact isDocstring_singleton hsummary
  · exact isDocstring_lines (by decide) hsummary hlines

theorem same_partsMapping (h : FunctionAgrees f g) : Same f.partsMapping g.partsMapping := by
  have hopen : IsPlain "\x7b" := by decide
  have hclose : IsPlain "\x7d" := by decide
  have hitems : Same (", ".intercalate
        (f.parts.map fun p => Escaped.ascii p.part.name ++ ": " ++ p.name))
      (", ".intercalate (g.parts.map fun p => Escaped.ascii p.part.name ++ ": " ++ p.name)) := by
    refine Same.intercalate (by decide) (List.rel_map (fun p q hpq => ?_) h.parts)
    exact ((sameBefore_ascii _ _).append (by decide) (by decide)).append hpq.same_name
  unfold Function.partsMapping
  exact (hopen.same.append hitems).append hclose.same

theorem serializeHint_eq :
    f.serializeHint = if (f.body.bind (·.serialize)).getD "" = "" then []
      else ["serialize=" ++ Escaped.ascii ((f.body.bind (·.serialize)).getD "")] := by
  unfold Function.serializeHint
  split
  · rename_i h
    rw [h]
    rfl
  · rename_i h
    rw [h]
    rfl
  · rename_i hint hne h
    rw [h]
    have : hint ≠ "" := fun heq => hne heq
    simp [this]

/-- The line of a keyword argument. -/
def keywordLine (k : String) : String := "        " ++ k ++ ","

theorem same_keywordLine {k k' : String} (h : Same k k') : Same (keywordLine k) (keywordLine k') :=
  ((by decide : IsPlain "        ").same.append h).append (by decide : IsPlain ",").same

theorem same_keywordLine_ascii {label : String} (hlabel : IsPlain label) (s t : String) :
    Same (keywordLine (label ++ Escaped.ascii s)) (keywordLine (label ++ Escaped.ascii t)) := by
  have hindent : IsPlain "        " := by decide
  have hliteral := hlabel.same.append_before (sameBefore_ascii s t)
  exact (hindent.same.append_before hliteral).append (by decide) (by decide)

theorem sameLines_serializeHint (h : FunctionAgrees f g) :
    SameLines (f.serializeHint.map keywordLine) (g.serializeHint.map keywordLine) := by
  have hempty : (f.body.bind (·.serialize)).getD "" = "" ↔
      (g.body.bind (·.serialize)).getD "" = "" := by
    have hbody := h.body
    generalize f.body = b, g.body = c at hbody
    cases hbody with
    | none => exact Iff.rfl
    | some hagrees => exact hagrees.serialize
  rw [serializeHint_eq, serializeHint_eq]
  by_cases hg : (g.body.bind (·.serialize)).getD "" = ""
  · rw [if_pos (hempty.mpr hg), if_pos hg]
    exact .inl ⟨rfl, rfl⟩
  · rw [if_neg (mt hempty.mp hg), if_neg hg]
    exact .singleton (same_keywordLine_ascii (by decide) _ _)

theorem sameLines_keywordArguments (h : FunctionAgrees f g) :
    SameLines (f.keywordArguments.map keywordLine) (g.keywordArguments.map keywordLine) := by
  have hempty : f.parts.isEmpty = g.parts.isEmpty := by
    have hparts := h.parts
    generalize f.parts = ps, g.parts = qs at hparts
    cases hparts <;> rfl
  have hlabel : IsPlain "parts=" := by decide
  unfold Function.keywordArguments
  rw [hempty, h.isSome_body]
  simp only [List.map_append]
  refine (((SameLines.append ?_ ?_).append ?_).append (sameLines_serializeHint h))
  · split
    · exact .inl ⟨rfl, rfl⟩
    · exact .singleton (same_keywordLine (hlabel.same.append (same_partsMapping h)))
  · exact .singleton (same_keywordLine (IsPlain.same (by decide)))
  · split
    · exact .singleton (same_keywordLine (IsPlain.same (by decide)))
    · exact .inl ⟨rfl, rfl⟩

theorem lines_eq (f : Function) :
    f.lines = ["def " ++ f.name ++ "("] ++ f.arguments.map argumentLine ++ [") -> Any:"] ++
      f.docLines ++ ["    return transport.request("] ++
      [keywordLine ("" ++ Escaped.ascii f.verb.token)] ++
      [keywordLine ("" ++ Escaped.ascii f.path.raw)] ++
      f.keywordArguments.map keywordLine ++ ["    )"] := by
  rw [String.empty_append, String.empty_append]
  simp only [Function.lines, List.append_assoc, List.cons_append, List.nil_append]
  rfl

theorem same_render (h : FunctionAgrees f g) : Same f.render g.render := by
  obtain ⟨hnames, hnames'⟩ := isPlain_names h
  have hdef : IsPlain ("def " ++ f.name ++ "(") :=
    ((by decide : IsPlain "def ").append h.plainName).append (by decide)
  have hplain : ∀ {a : String}, IsPlain a → SameLines [a] [a] := fun ha => .singleton ha.same
  have htext : ∀ s t, SameLines [keywordLine ("" ++ Escaped.ascii s)]
      [keywordLine ("" ++ Escaped.ascii t)] := fun s t =>
    .singleton (same_keywordLine_ascii (by decide) s t)
  have hlines : SameLines f.lines g.lines := by
    rw [lines_eq, lines_eq, ← h.name]
    -- The parts of the list are met from the last to the first.
    refine SameLines.append ?_ (hplain (by decide))
    refine SameLines.append ?_ (sameLines_keywordArguments h)
    refine SameLines.append (SameLines.append ?_ (htext _ _)) (htext _ _)
    refine SameLines.append ?_ (hplain (by decide))
    refine SameLines.append ?_ (sameLines_docstring (by decide) (isDocstring_docLines hnames)
      (isDocstring_docLines hnames'))
    refine SameLines.append ?_ (hplain (by decide))
    exact (hplain hdef).append (sameLines_arguments h)
  exact hlines.same

end Functions

section Plans

variable {e e' : Endpoint} {cls name : String} {verb : Verb} {taken : List String}
  {paths paths' : List PathTemplate} {b b' : Binding}

theorem forall₂_partArguments {ps qs : List PathPart} (h : List.Forall₂ PartAgrees ps qs) :
    List.Forall₂ PartArgumentAgrees (partArguments taken ps) (partArguments taken qs) := by
  refine forall₂_nameInTurn h (fun p q hpq => by rw [hpq.name]) fun p q before hpq => ?_
  exact ⟨rfl, isNameText_identifier.uniqueIdentifier.isPlain, hpq⟩

theorem isEmpty_eq_of_mem_iff {verbs verbs' : List Verb} (h : ∀ v, v ∈ verbs ↔ v ∈ verbs') :
    verbs.isEmpty = verbs'.isEmpty := by
  rw [Bool.eq_iff_iff, List.isEmpty_iff, List.isEmpty_iff, List.eq_nil_iff_forall_not_mem,
    List.eq_nil_iff_forall_not_mem]
  simp only [h]

theorem any_required_eq {ps qs : List (String × Param)} (h : ParamsAgree ps qs) :
    ps.any (·.2.required) = qs.any (·.2.required) := by
  rw [Bool.eq_iff_iff, List.any_eq_true, List.any_eq_true]
  constructor
  · rintro ⟨⟨wire, p⟩, hp, hrequired⟩
    obtain ⟨q, hq, hagrees⟩ := h.agrees wire p hp
    exact ⟨(wire, q), hq, hagrees.required ▸ hrequired⟩
  · rintro ⟨⟨wire, q⟩, hq, hrequired⟩
    obtain ⟨p, hp, hagrees⟩ := h.agrees' wire q hq
    exact ⟨(wire, p), hp, hagrees.required ▸ hrequired⟩

theorem acceptsBody_eq (h : EndpointAgrees e e') :
    acceptsBody verb e.body = acceptsBody verb e'.body := by
  have hbody := h.body
  generalize e.body = b, e'.body = c at hbody
  cases hbody with
  | none => rfl
  | some hagrees => cases verb <;> simp [acceptsBody, hagrees.required]

theorem names_eq_of_forall₂ {ps qs : List PathPart} (h : List.Forall₂ PartAgrees ps qs) :
    ps.map (·.name) = qs.map (·.name) := by
  induction h with
  | nil => rfl
  | cons hfirst _ ih => rw [List.map_cons, List.map_cons, hfirst.name, ih]

theorem forall₂_functionsOf (h : EndpointAgrees e e') (hcls : IsPlain cls)
    (hpaths : List.Forall₂ PathAgrees paths paths') :
    List.Forall₂ FunctionAgrees (functionsOf e cls verb taken paths)
      (functionsOf e' cls verb taken paths') := by
  have hbody : Option.Rel BodyAgrees (if acceptsBody verb e'.body then e.body else none)
      (if acceptsBody verb e'.body then e'.body else none) := by
    split
    · exact h.body
    · exact .none
  refine forall₂_nameInTurn hpaths (fun path path' hpath => by rw [names_eq_of_forall₂ hpath])
    fun path path' before hpath => ?_
  rw [functionOf, functionOf, acceptsBody_eq h]
  exact ⟨rfl, isNameText_uniqueFunctionName.isPlain, rfl, forall₂_partArguments hpath, rfl, hcls,
    any_required_eq h.params, hbody⟩

/-- Bindings with functions that agree one by one. -/
def BindingAgrees (b b' : Binding) : Prop := List.Forall₂ FunctionAgrees b.functions b'.functions

theorem same_body (h : BindingAgrees b b') : Same b.body b'.body :=
  Same.intercalate (by decide) (List.rel_map (fun _ _ hfg => same_render hfg) h)

theorem forall₂_bindings (h : EndpointAgrees e e') (verbs : List Verb) :
    List.Forall₂ BindingAgrees (verbs.map (bindingOf name e)) (verbs.map (bindingOf name e')) := by
  induction verbs with
  | nil => exact .nil
  | cons verb rest ih => exact .cons (forall₂_functionsOf h isPlain_className h.paths) ih

end Plans

end EndpointBindings.Emission
