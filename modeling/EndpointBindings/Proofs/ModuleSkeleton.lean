import EndpointBindings.Proofs.ClassSkeleton
import EndpointBindings.Proofs.FunctionSkeleton

/-!
The modules of endpoints that agree in everything but free text differ inside of literals only: no
text of a document becomes code.
-/

namespace EndpointBindings.Emission

open EndpointBindings.Naming EndpointBindings.Text

section Modules

variable {e e' : Endpoint} {name cls cls' : String} {bindings bindings' : List Binding}

theorem paramTypingNames_mem_iff (h : EndpointAgrees e e') (n : String) :
    (∃ p ∈ e.params, n ∈ (TypeHint.ofType p.2.type).typingNames) ↔
      ∃ q ∈ e'.params, n ∈ (TypeHint.ofType q.2.type).typingNames := by
  constructor
  · rintro ⟨⟨wire, p⟩, hp, hn⟩
    obtain ⟨q, hq, hagrees⟩ := h.params.agrees wire p hp
    exact ⟨(wire, q), hq, typingNames_eq hagrees.type ▸ hn⟩
  · rintro ⟨⟨wire, q⟩, hq, hn⟩
    obtain ⟨p, hp, hagrees⟩ := h.params.agrees' wire q hq
    exact ⟨(wire, p), hp, typingNames_eq hagrees.type ▸ hn⟩

theorem partTypingNames_eq {ps qs : List PathPart} (h : List.Forall₂ PartAgrees ps qs) :
    (ps.map fun p => (TypeHint.ofType p.type).typingNames) =
      qs.map fun q => (TypeHint.ofType q.type).typingNames := by
  induction h with
  | nil => rfl
  | cons hfirst _ ih => rw [List.map_cons, List.map_cons, typingNames_eq hfirst.type, ih]

theorem typingImports_eq (h : EndpointAgrees e e') : typingImports e = typingImports e' := by
  have hparts : List.Forall₂ PartAgrees e.parts e'.parts :=
    List.rel_flatMap h.paths fun _ _ hpath => hpath
  have hmem : ∀ (e : Endpoint) (n : String),
      n ∈ (e.params.map (·.2.type) ++ e.parts.map (·.type)).flatMap
          (fun t => (TypeHint.ofType t).typingNames) ↔
        (∃ p ∈ e.params, n ∈ (TypeHint.ofType p.2.type).typingNames) ∨
          n ∈ (e.parts.map fun p => (TypeHint.ofType p.type).typingNames).flatten := by
    intro e n
    simp only [List.flatMap_append, List.mem_append, List.mem_flatMap, List.mem_map,
      List.mem_flatten, exists_exists_and_eq_and]
  apply sortTypingNames_eq_of_mem_iff
  intro n
  rw [List.mem_append, List.mem_append, hmem e, hmem e', paramTypingNames_mem_iff h,
    partTypingNames_eq hparts]

/-- The lines of a module in front of its classes, but for the docstring. -/
def importLines (e : Endpoint) : List String :=
  ["", "from __future__ import annotations", "", "import dataclasses",
    "from typing import " ++ ", ".intercalate (typingImports e), "",
    "from ." ++ transportModule ++ " import Transport", "", ""]

theorem moduleLines_eq :
    moduleLines e cls =
      ["" ++ "\"\"\"" ++ ("Client bindings for the \x60\x60" ++ docstringText (e.name.getD "") ++
          "\x60\x60 endpoint.")] ++
        (documentationLines e ++ ["", "Generated by " ++ generator ++ ". Do not edit."]) ++
        ["" ++ "\"\"\""] ++ importLines e ++ [cls] := by
  have hopen : "\"\"\"Client bindings for the \x60\x60" =
      "" ++ "\"\"\"" ++ "Client bindings for the \x60\x60" := by decide
  unfold moduleLines importLines
  rw [hopen]
  simp only [String.append_assoc, String.empty_append, List.cons_append, List.nil_append,
    List.append_assoc]

theorem isSilent_documentationLines : ∀ l ∈ documentationLines e, IsSilent l := by
  intro l hl
  unfold documentationLines at hl
  dsimp only at hl
  split at hl
  · exact absurd hl List.not_mem_nil
  · rcases List.mem_pair.mp hl with rfl | rfl
    · exact IsPlain.isSilent (by decide)
    · exact (IsPlain.isSilent (by decide)).append (isSilent_docstringText _)

theorem isDocstring_moduleLines :
    IsDocstring "" (["" ++ "\"\"\"" ++ ("Client bindings for the \x60\x60" ++
        docstringText (e.name.getD "") ++ "\x60\x60 endpoint.")] ++
      (documentationLines e ++ ["", "Generated by " ++ generator ++ ". Do not edit."]) ++
      ["" ++ "\"\"\""]) := by
  have hfirst : IsSilent ("Client bindings for the \x60\x60" ++ docstringText (e.name.getD "") ++
      "\x60\x60 endpoint.") :=
    ((IsPlain.isSilent (by decide)).append (isSilent_docstringText _)).append
      (IsPlain.isSilent (by decide))
  apply isDocstring_lines (by decide) hfirst
  intro l hl
  rcases List.mem_append.mp hl with hl | hl
  · exact isSilent_documentationLines l hl
  · have hplain : ∀ l ∈ ["", "Generated by " ++ generator ++ ". Do not edit."], IsPlain l := by
      decide
    exact (hplain l hl).isSilent

theorem sameLines_importLines (h : EndpointAgrees e e') :
    SameLines (importLines e) (importLines e') := by
  have hnames : IsPlain (", ".intercalate (typingImports e')) := by
    apply isPlain_intercalate (by decide)
    intro n hn
    have hall : ∀ n ∈ typingOrder, IsPlain n := by decide
    exact hall n (List.mem_filter.mp hn).1
  have himport : IsPlain ("from typing import " ++ ", ".intercalate (typingImports e')) :=
    (by decide : IsPlain "from typing import ").append hnames
  have hbefore : ∀ l ∈ ["", "from __future__ import annotations", "", "import dataclasses"],
      IsPlain l := by decide
  have hafter : ∀ l ∈ ["", "from ." ++ transportModule ++ " import Transport", "", ""],
      IsPlain l := by decide
  unfold importLines
  rw [typingImports_eq h]
  exact (SameLines.of_plain hbefore).append
    ((SameLines.singleton himport.same).append (SameLines.of_plain hafter))

theorem sameLines_moduleLines (h : EndpointAgrees e e') (hcls : Same cls cls') :
    SameLines (moduleLines e cls) (moduleLines e' cls') := by
  rw [moduleLines_eq, moduleLines_eq]
  refine SameLines.append (SameLines.append ?_ (sameLines_importLines h)) (.singleton hcls)
  exact sameLines_docstring (by decide) isDocstring_moduleLines isDocstring_moduleLines

theorem sameResults_moduleText (h : EndpointAgrees e e')
    (hbindings : List.Forall₂ BindingAgrees bindings bindings') :
    SameResults (moduleText e bindings) (moduleText e' bindings') := by
  have hbodies : SameLines (bindings.flatMap fun b => ["", "", b.body])
      (bindings'.flatMap fun b => ["", "", b.body]) := by
    have hempty : Same "" "" := IsPlain.same (by decide)
    refine .of_forall₂ (List.rel_flatMap hbindings fun b b' hb => ?_)
    exact .cons hempty (.cons hempty (.cons (same_body hb) .nil))
  unfold moduleText
  rcases sameResults_paramsClass h with ⟨d, hd, hd'⟩ | ⟨cls, cls', hcls, hcls', hsame⟩
  · rw [hd, hd']
    exact .inl ⟨d, rfl, rfl⟩
  · rw [hcls, hcls']
    exact .inr ⟨_, _, rfl, rfl, ((sameLines_moduleLines h hsame).append hbodies).same_endLines⟩

theorem sameResults_moduleOf (h : EndpointAgrees e e') :
    SameResults (moduleOf e) (moduleOf e') := by
  have hpaths : e.paths.isEmpty = e'.paths.isEmpty := by
    have hall := h.paths
    generalize e.paths = ps, e'.paths = qs at hall
    cases hall <;> rfl
  unfold moduleOf
  rw [emit_singleton, emit_singleton]
  unfold bindingsOf
  rw [h.name, isEmpty_eq_of_mem_iff h.verbs, canonical_eq_of_mem_iff h.verbs, hpaths]
  split
  · exact .inl ⟨_, rfl, rfl⟩
  · split
    · exact .inl ⟨_, rfl, rfl⟩
    · split
      · exact .inl ⟨_, rfl, rfl⟩
      · exact sameResults_moduleText h (forall₂_bindings h _)

/-- Free text of a document never becomes code: the modules of endpoints that agree in all else have
one skeleton. -/
theorem skeleton_moduleOf_eq (h : EndpointAgrees e e') :
    (moduleOf e).map skeleton = (moduleOf e').map skeleton := by
  rcases sameResults_moduleOf h with ⟨d, hd, hd'⟩ | ⟨a, b, ha, hb, hsame⟩
  · rw [hd, hd']
  · rw [ha, hb]
    exact congrArg Except.ok hsame.skeleton_eq

/-- An endpoint with a path part and a parameter, given its free texts. -/
def withTexts (documentation literal description default : String) : Endpoint :=
  { name := some "search", documentation := some documentation, verbs := [.get]
    paths := [⟨literal ++ "\x7bindex\x7d",
      [.literal literal, .part ⟨"index", .string, some description⟩]⟩]
    params := [("q", ⟨.string, false, some (.text default), some description⟩)], body := none }

theorem skeleton_moduleOf_withTexts :
    (∃ text, moduleOf (withTexts "\"\"\"\nimport os\n" "/\", exec(\"" "\\" "\")") = .ok text) ∧
      (moduleOf (withTexts "\"\"\"\nimport os\n" "/\", exec(\"" "\\" "\")")).map skeleton =
        (moduleOf (withTexts "" "/" "" "")).map skeleton := by
  have hverbs : ∀ v, v ∈ [Verb.get] ↔ v ∈ [Verb.get] := fun v => Iff.rfl
  refine ⟨⟨_, rfl⟩, skeleton_moduleOf_eq
    ⟨rfl, hverbs, ⟨by decide, by decide, ?_, ?_⟩, ?_, .none⟩⟩
  · intro wire p hp
    obtain ⟨rfl, rfl⟩ := Prod.mk.inj (List.mem_singleton.mp hp)
    exact ⟨_, List.mem_singleton_self _, .same _, rfl, .some (.text _ _)⟩
  · intro wire q hq
    obtain ⟨rfl, rfl⟩ := Prod.mk.inj (List.mem_singleton.mp hq)
    exact ⟨_, List.mem_singleton_self _, .same _, rfl, .some (.text _ _)⟩
  · exact .cons (.cons ⟨rfl, .same _⟩ .nil) .nil

end Modules

end EndpointBindings.Emission
