import EndpointBindings.Emission.Module
import EndpointBindings.Proofs.NameMapLookup
import EndpointBindings.Proofs.PlainText

/-!
Endpoints that agree in everything but free text: documentation, descriptions, the literal text of
paths, the options of choices, texts as defaults, and how a body is to be written. The expressions
that are emitted for them differ inside of literals only.
-/

namespace EndpointBindings

/-- Types that differ in the texts of their options only. -/
inductive TypeAgrees : ValueType → ValueType → Prop
  | same (type : ValueType) : TypeAgrees type type
  | choice {options options' : Options} (count : options.texts.length = options'.texts.length) :
      TypeAgrees (.choice options) (.choice options')

/-- Defaults of one tag that differ in texts only. -/
inductive DefaultAgrees : Default → Default → Prop
  | text (s t : String) : DefaultAgrees (.text s) (.text t)
  | flag (b : Bool) : DefaultAgrees (.flag b) (.flag b)
  | integer (i : Int) : DefaultAgrees (.integer i) (.integer i)
  | float (x : Number.Binary64) : DefaultAgrees (.float x) (.float x)
  | list {items items' : List String} (count : items.length = items'.length) :
      DefaultAgrees (.list items) (.list items')

structure ParamAgrees (p q : Param) : Prop where
  type : TypeAgrees p.type q.type
  required : p.required = q.required
  default : Option.Rel DefaultAgrees p.default q.default

/-- Parameters under the same names that agree name by name, in whatever order. -/
structure ParamsAgree (ps qs : List (String × Param)) : Prop where
  nodup : (ps.map (·.1)).Nodup
  nodup' : (qs.map (·.1)).Nodup
  agrees : ∀ wire p, (wire, p) ∈ ps → ∃ q, (wire, q) ∈ qs ∧ ParamAgrees p q
  agrees' : ∀ wire q, (wire, q) ∈ qs → ∃ p, (wire, p) ∈ ps ∧ ParamAgrees p q

structure PartAgrees (p q : PathPart) : Prop where
  name : p.name = q.name
  type : TypeAgrees p.type q.type

/-- Paths with the same parts, whatever stands between them. -/
def PathAgrees (p q : PathTemplate) : Prop := List.Forall₂ PartAgrees p.parts q.parts

structure BodyAgrees (b c : Body) : Prop where
  required : b.required = c.required
  serialize : b.serialize.getD "" = "" ↔ c.serialize.getD "" = ""

structure EndpointAgrees (e e' : Endpoint) : Prop where
  name : e.name = e'.name
  verbs : ∀ v, v ∈ e.verbs ↔ v ∈ e'.verbs
  params : ParamsAgree e.params e'.params
  paths : List.Forall₂ PathAgrees e.paths e'.paths
  body : Option.Rel BodyAgrees e.body e'.body

namespace Emission

open EndpointBindings.Naming EndpointBindings.Text EndpointBindings.Number

section Expressions

variable {type type' : ValueType} {d d' : Default} {texts texts' : List String}

theorem forall₂_ascii (h : texts.length = texts'.length) :
    List.Forall₂ SameBefore (texts.map Escaped.ascii) (texts'.map Escaped.ascii) := by
  induction texts generalizing texts' with
  | nil =>
      obtain rfl := List.length_eq_zero_iff.mp h.symm
      exact .nil
  | cons a rest ih =>
      cases texts' with
      | nil => simp at h
      | cons b rest' => exact .cons (sameBefore_ascii a b) (ih (by simpa using h))

/-- Texts between brackets, with commas between them. -/
theorem same_enclosed {before after : String} (hbefore : IsPlain before) (hafter : IsPlain after)
    (hne : after ≠ "") (h : texts.length = texts'.length) :
    Same (before ++ ", ".intercalate (texts.map Escaped.ascii) ++ after)
      (before ++ ", ".intercalate (texts'.map Escaped.ascii) ++ after) := by
  have hitems := SameBefore.intercalate (c := ", ") (by decide) (by decide) (forall₂_ascii h)
  exact (hbefore.same.append_before hitems).append hafter hne

theorem same_hint (h : TypeAgrees type type') :
    Same (TypeHint.ofType type).render (TypeHint.ofType type').render := by
  cases h with
  | same =>
      cases type with
      | choice options => exact same_enclosed (by decide) (by decide) (by decide) rfl
      | number kind => cases kind <;> exact IsPlain.same (by decide)
      | string => exact IsPlain.same (by decide)
      | boolean => exact IsPlain.same (by decide)
      | time => exact IsPlain.same (by decide)
      | list => exact IsPlain.same (by decide)
      | other => exact IsPlain.same (show IsPlain "Any" by decide)
  | choice count => exact same_enclosed (by decide) (by decide) (by decide) count

theorem same_optionalHint (h : TypeAgrees type type') :
    Same (TypeHint.optional (.ofType type)).render (TypeHint.optional (.ofType type')).render := by
  have hopen : IsPlain "Optional[" := by decide
  have hclose : IsPlain "]" := by decide
  exact (hopen.same.append (same_hint h)).append hclose.same

theorem ofType_eq_any_iff (h : TypeAgrees type type') :
    TypeHint.ofType type = .any ↔ TypeHint.ofType type' = .any := by
  cases h with
  | same => rfl
  | choice => simp [TypeHint.ofType]

theorem typingNames_eq (h : TypeAgrees type type') :
    (TypeHint.ofType type).typingNames = (TypeHint.ofType type').typingNames := by
  cases h with
  | same => rfl
  | choice => rfl

theorem same_floatLiteral (x : Binary64) : Same (floatLiteral x) (floatLiteral x) := by
  unfold floatLiteral
  split
  · rename_i hx
    exact (isPlain_text hx).same
  · rename_i hx
    have hname : ∀ s,
        Same ("float(" ++ Escaped.ascii s ++ ")") ("float(" ++ Escaped.ascii s ++ ")") := by
      intro s
      have hopen : IsPlain "float(" := by decide
      exact (hopen.same.append_before (sameBefore_ascii s s)).append (by decide) (by decide)
    cases x with
    | finite => exact absurd rfl hx
    | infinite negative =>
        cases negative with
        | false => exact hname "inf"
        | true => exact hname "-inf"
    | nan => exact hname "nan"

theorem same_tupleLiteral (h : texts.length = texts'.length) :
    Same (tupleLiteral texts) (tupleLiteral texts') := by
  have hopen : IsPlain "(" := by decide
  have hitems := same_enclosed hopen (by decide : IsPlain ")") (by decide) h
  unfold tupleLiteral
  split
  · rename_i a
    obtain ⟨b, rfl⟩ := List.length_eq_one_iff.mp h.symm
    exact (hopen.same.append_before (sameBefore_ascii a b)).append (by decide) (by decide)
  · rename_i hmany
    split
    · obtain ⟨a, rfl⟩ := List.length_eq_one_iff.mp h
      exact absurd rfl (hmany a)
    · exact hitems

theorem same_literal (h : DefaultAgrees d d') : SameBefore (literal d) (literal d') := by
  cases h with
  | text s t => exact sameBefore_ascii s t
  | flag b => cases b <;> exact (IsPlain.same (by decide)).before
  | integer i => exact (isPlain_toString i).same.before
  | float x => exact (same_floatLiteral x).before
  | list count => exact (same_tupleLiteral count).before

end Expressions

end Emission

end EndpointBindings
