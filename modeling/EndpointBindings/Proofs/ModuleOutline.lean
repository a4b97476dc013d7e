import EndpointBindings.Proofs.DeclarationOutline
import EndpointBindings.Proofs.ModuleSkeleton

/-!
The code of a module, line by line. No text of a document declares anything: a module has the lines
of code that were planned for it, and of these the import from `typing`, one class and its functions
begin at the margin with a word of their own.
-/

namespace EndpointBindings.Emission

open EndpointBindings.Naming EndpointBindings.Text

section Modules

variable {e : Endpoint} {name cls text : String} {bindings : List Binding} {f : Function}
  {fs : List Function} {code : List String} {p : List Char → Bool}

/-- Two empty lines. -/
theorem hasCode_gap : HasCode ["", ""] ["", ""] := hasCode_bare (by decide)

theorem endLines_gap (a b : String) :
    endLines [a ++ "\n\n\n" ++ b] = endLines ([a] ++ ["", ""] ++ [b]) := by
  apply String.toList_inj.mp
  simp [endLines]

theorem hasCode_renders (hfs : fs ≠ []) (h : ∀ f ∈ fs, f.IsNamed) :
    HasCode (["", ""] ++ ["\n\n\n".intercalate (fs.map Function.render)])
      (fs.flatMap fun f => ["", ""] ++ f.code) := by
  induction fs with
  | nil => exact absurd rfl hfs
  | cons f rest ih =>
      obtain ⟨hf, hrest⟩ := List.forall_mem_cons.mp h
      have hrender : HasCode [f.render] f.code :=
        (hasCode_functionLines hf).joined (by rw [lines_eq]; simp)
      cases rest with
      | nil =>
          rw [List.map_singleton, String.intercalate_singleton, List.flatMap_singleton]
          exact hasCode_gap.append hrender
      | cons g more =>
          have hmore := (hasCode_gap.append hrender).append (ih (List.cons_ne_nil _ _) hrest)
          rw [List.map_cons, List.map_cons, String.intercalate_cons_cons, List.flatMap_cons]
          rwa [HasCode, endLines_append, endLines_gap, ← endLines_append, ← List.append_assoc,
            ← List.append_assoc]

theorem hasCode_bindings (h : ∀ b ∈ bindings, b.functions ≠ [] ∧ ∀ f ∈ b.functions, f.IsNamed) :
    HasCode (bindings.flatMap fun b => ["", "", b.body])
      ((bindings.flatMap (·.functions)).flatMap fun f => ["", ""] ++ f.code) := by
  induction bindings with
  | nil => exact hasCode_self fun _ ha => absurd ha List.not_mem_nil
  | cons b rest ih =>
      obtain ⟨⟨hne, hb⟩, hrest⟩ := List.forall_mem_cons.mp h
      rw [List.flatMap_cons, List.flatMap_cons, List.flatMap_append]
      exact (hasCode_renders hne hb).append (ih hrest)

/-- The line that imports from `typing`. -/
def typingLine (e : Endpoint) : String :=
  "from typing import " ++ ", ".intercalate (typingImports e)

theorem isBare_typingLine : IsBare (typingLine e) := by
  have hnames : IsBare (", ".intercalate (typingImports e)) := by
    apply isBare_intercalate (by decide)
    intro n hn
    have hall : ∀ n ∈ typingOrder, IsBare n := by decide
    exact hall n (List.mem_filter.mp hn).1
  exact (by decide : IsBare "from typing import ").append hnames

/-- The lines in front of the import from `typing`, and those behind it. -/
theorem importLines_eq : importLines e =
    ["", "from __future__ import annotations", "", "import dataclasses"] ++ [typingLine e] ++
      ["", "from ." ++ transportModule ++ " import Transport", "", ""] := rfl

theorem hasCode_importLines : HasCode (importLines e) (importLines e) := by
  rw [importLines_eq]
  exact ((hasCode_bare (by decide)).append
    (hasCode_bare (List.forall_mem_singleton.mpr isBare_typingLine))).append
      (hasCode_bare (by decide))

/-- The lines of code of a module with the given functions. -/
def moduleCode (name : String) (e : Endpoint) (fs : List Function) : List String :=
  ["\"\"\"\"\"\""] ++ importLines e ++ classCode name (fieldsOf e) ++
    fs.flatMap fun f => ["", ""] ++ f.code

theorem hasCode_moduleText (hname : e.name = some name)
    (hbindings : ∀ b ∈ bindings, b.functions ≠ [] ∧ ∀ f ∈ b.functions, f.IsNamed)
    (htext : moduleText e bindings = .ok text) : ∃ lines, text = endLines lines ∧
      HasCode lines (moduleCode name e (bindings.flatMap (·.functions))) := by
  obtain ⟨cls, hcls, h⟩ := bind_eq_ok.mp htext
  obtain rfl := Except.ok.inj h
  have hdocstring := hasCode_docstring (@isDocstring_moduleLines e) (by decide)
  refine ⟨_, rfl, ?_⟩
  rw [moduleLines_eq]
  exact ((hdocstring.append hasCode_importLines).append (hasCode_paramsClass hname hcls)).append
    (hasCode_bindings hbindings)

/-- The functions of an endpoint, verb by verb. -/
def functionsFor (name : String) (e : Endpoint) : List Function :=
  (Verb.canonical e.verbs).flatMap fun verb => functionsOf e (className name) verb [] e.paths

theorem functions_ne_nil (h : e.paths ≠ []) (cls : String) (verb : Verb) :
    functionsOf e cls verb [] e.paths ≠ [] := by
  intro hnil
  have hpaths := @functionsOf_paths e cls verb [] e.paths
  rw [hnil] at hpaths
  exact h hpaths.symm

theorem isNamed_of_mem_functionsFor (hf : f ∈ functionsFor name e) : f.IsNamed := by
  obtain ⟨verb, -, hf⟩ := List.mem_flatMap.mp hf
  exact isNamed_of_mem_functionsOf isNameText_className hf

theorem hasCode_moduleOf (h : IsEmittable name e) (htext : moduleOf e = .ok text) :
    ∃ lines, text = endLines lines ∧ HasCode lines (moduleCode name e (functionsFor name e)) := by
  rw [moduleOf_eq h] at htext
  have hbindings : ∀ b ∈ (Verb.canonical e.verbs).map (bindingOf name e),
      b.functions ≠ [] ∧ ∀ f ∈ b.functions, f.IsNamed := by
    intro b hb
    obtain ⟨verb, -, rfl⟩ := List.mem_map.mp hb
    exact ⟨functions_ne_nil h.2.2 _ verb,
      fun f hf => isNamed_of_mem_functionsOf isNameText_className hf⟩
  have hfunctions : ((Verb.canonical e.verbs).map (bindingOf name e)).flatMap (·.functions) =
      functionsFor name e := by
    rw [List.flatMap_map]
    rfl
  rw [← hfunctions]
  exact hasCode_moduleText h.1 hbindings htext

/-- The lines at the margin that all modules have. -/
def marginLines : List String :=
  ["", "\"\"\"\"\"\"", "from __future__ import annotations", "import dataclasses",
    "from ." ++ transportModule ++ " import Transport", "@dataclasses.dataclass(frozen=True)",
    ") -> Any:"]

theorem filter_codeOf_eq_nil (h : ∀ a ∈ code, p (codeOf a) = false) :
    (code.map codeOf).filter p = [] := by
  apply List.filter_eq_nil_iff.mpr
  intro line hline
  obtain ⟨a, ha, rfl⟩ := List.mem_map.mp hline
  rw [h a ha]
  exact Bool.false_ne_true

theorem filter_bodyCode (hindent : ∀ cs, p (' ' :: cs) = false) :
    (f.bodyCode.map codeOf).filter p = [] := by
  have hkeyword : ∀ k, p (codeOf (keywordLine k)) = false := by
    intro k
    rw [keywordLine, String.append_assoc, codeOf_append (by decide)]
    exact hindent _
  apply filter_codeOf_eq_nil
  intro line hline
  rcases eq_of_mem_bodyCode hline with hline | ⟨text, rfl⟩ | ⟨k, -, rfl⟩
  · rcases List.mem_pair.mp hline with rfl | rfl <;> exact hindent _
  · exact hkeyword _
  · exact hkeyword k

/-- Of the lines of a function, only the first one stands at the margin with a word of its own. -/
theorem filter_functionCode (hindent : ∀ cs, p (' ' :: cs) = false)
    (hmargin : ∀ a ∈ marginLines, p a.toList = false) (h : f.IsNamed) :
    ((["", ""] ++ f.code).map codeOf).filter p = [f.head.toList].filter p := by
  have hgap : ((["", ""] : List String).map codeOf).filter p = [] :=
    filter_codeOf_eq_nil (List.forall_mem_cons.mpr ⟨hmargin "" (by decide),
      List.forall_mem_singleton.mpr (hmargin "" (by decide))⟩)
  have harguments : ((f.arguments.map argumentLine).map codeOf).filter p = [] := by
    apply filter_codeOf_eq_nil
    intro line hline
    obtain ⟨a, -, rfl⟩ := List.mem_map.mp hline
    rw [argumentLine, String.append_assoc, codeOf_append (by decide)]
    exact hindent _
  have hreturns : ([") -> Any:"].map codeOf).filter p = [] :=
    filter_codeOf_eq_nil (List.forall_mem_singleton.mpr (hmargin ") -> Any:" (by decide)))
  have hdocstring : (["    \"\"\"\"\"\""].map codeOf).filter p = [] :=
    filter_codeOf_eq_nil (List.forall_mem_singleton.mpr (hindent _))
  have hhead : ([f.head].map codeOf).filter p = [f.head.toList].filter p := by
    rw [List.map_singleton, codeOf_bare h.isBare_head]
  rw [Function.code]
  simp only [List.map_append, List.filter_append, hgap, hhead, harguments, hreturns, hdocstring,
    filter_bodyCode hindent, List.append_nil, List.nil_append]

theorem filter_classCode (hindent : ∀ cs, p (' ' :: cs) = false)
    (hmargin : ∀ a ∈ marginLines, p a.toList = false) (fields : List Field) :
    ((classCode name fields).map codeOf).filter p =
      [("class " ++ className name ++ ":").toList].filter p := by
  have hdecorator : (["@dataclasses.dataclass(frozen=True)"].map codeOf).filter p = [] :=
    filter_codeOf_eq_nil (List.forall_mem_singleton.mpr
      (hmargin "@dataclasses.dataclass(frozen=True)" (by decide)))
  have hdocstring : (["    \"\"\"\"\"\""].map codeOf).filter p = [] :=
    filter_codeOf_eq_nil (List.forall_mem_singleton.mpr (hindent _))
  have hfields : ((fieldLines fields).map codeOf).filter p = [] := by
    apply filter_codeOf_eq_nil
    intro line hline
    rcases eq_of_mem_fieldLines hline with rfl | ⟨f, -, rfl⟩
    · exact hmargin "" (by decide)
    · rw [Field.line_eq, codeOf_append (by decide)]
      exact hindent _
  have hcode : classCode name fields = ["@dataclasses.dataclass(frozen=True)"] ++
      ["class " ++ className name ++ ":"] ++ ["    \"\"\"\"\"\""] ++ fieldLines fields := rfl
  have hhead : (["class " ++ className name ++ ":"].map codeOf).filter p =
      [("class " ++ className name ++ ":").toList].filter p := by
    rw [List.map_singleton, codeOf_bare (isBare_classLine name)]
  rw [hcode]
  simp only [List.map_append, List.filter_append, hdecorator, hhead, hdocstring, hfields,
    List.append_nil, List.nil_append]

/-- The lines of a module at the margin that tell it from others: its import from `typing`, its
class and its functions. -/
theorem filter_moduleCode (hindent : ∀ cs, p (' ' :: cs) = false)
    (hmargin : ∀ a ∈ marginLines, p a.toList = false) (hfs : ∀ f ∈ fs, f.IsNamed) :
    ((moduleCode name e fs).map codeOf).filter p =
      (([typingLine e, "class " ++ className name ++ ":"] ++ fs.map Function.head).map
        String.toList).filter p := by
  have hconst : ∀ lines ⊆ marginLines, (∀ a ∈ lines, IsBare a) →
      (lines.map codeOf).filter p = [] := by
    intro lines hlines hbare
    apply filter_codeOf_eq_nil
    intro a ha
    rw [codeOf_bare (hbare a ha)]
    exact hmargin a (hlines ha)
  have hdocstring : (["\"\"\"\"\"\""].map codeOf).filter p = [] :=
    filter_codeOf_eq_nil (List.forall_mem_singleton.mpr (hmargin "\"\"\"\"\"\"" (by decide)))
  have hbefore : ((["", "from __future__ import annotations", "", "import dataclasses"] :
      List String).map codeOf).filter p = [] := hconst _ (by decide) (by decide)
  have hafter : ((["", "from ." ++ transportModule ++ " import Transport", "", ""] :
      List String).map codeOf).filter p = [] := hconst _ (by decide) (by decide)
  have hfunctions : ((fs.flatMap fun f => ["", ""] ++ f.code).map codeOf).filter p =
      ((fs.map Function.head).map String.toList).filter p := by
    induction fs with
    | nil => rfl
    | cons f rest ih =>
        obtain ⟨hf, hrest⟩ := List.forall_mem_cons.mp hfs
        rw [List.flatMap_cons, List.map_append, List.filter_append,
          filter_functionCode hindent hmargin hf, ih hrest, ← List.filter_append]
        rfl
  have hheads : ([typingLine e, "class " ++ className name ++ ":"] ++ fs.map Function.head).map
      String.toList = [(typingLine e).toList] ++ [("class " ++ className name ++ ":").toList] ++
        (fs.map Function.head).map String.toList := rfl
  have htyping : ([typingLine e].map codeOf).filter p = [(typingLine e).toList].filter p := by
    rw [List.map_singleton, codeOf_bare isBare_typingLine]
  rw [moduleCode, importLines_eq, hheads]
  simp only [List.map_append, List.filter_append, hdocstring, hbefore, htyping, hafter, hfunctions,
    filter_classCode hindent hmargin, List.append_nil, List.nil_append]

/-- The lines at the margin of a module that start with a word. -/
theorem linesFrom_moduleOf_eq (word : String) (h : IsEmittable name e)
    (htext : moduleOf e = .ok text) (hindent : word.toList.head? ∉ [none, some ' '])
    (hmargin : ∀ a ∈ marginLines, word.toList.isPrefixOf a.toList = false) :
    linesFrom word text = ([typingLine e, "class " ++ className name ++ ":"] ++
      (functionsFor name e).map Function.head).filter (word.toList.isPrefixOf ·.toList) := by
  obtain ⟨lines, rfl, hcode⟩ := hasCode_moduleOf h htext
  obtain ⟨c, rest, hword⟩ : ∃ c rest, word.toList = c :: rest := by
    cases hcs : word.toList with
    | nil => simp [hcs] at hindent
    | cons c rest => exact ⟨c, rest, rfl⟩
  have hne : word ≠ "" := by
    rintro rfl
    simp at hword
  have hblank : ∀ cs, word.toList.isPrefixOf (' ' :: cs) = false := by
    intro cs
    have hc : c ≠ ' ' := by simpa [hword] using hindent
    simp [hword, List.isPrefixOf, hc]
  rw [hcode.linesFrom_eq hne, filter_moduleCode hblank hmargin fun f => isNamed_of_mem_functionsFor,
    List.filter_map, List.map_map]
  simp [Function.comp_def]

theorem isPrefixOf_head (word : String) (f : Function) : word.toList.isPrefixOf f.head.toList =
    word.toList.isPrefixOf ("def ".toList ++ (f.name ++ "(").toList) := by
  rw [Function.head, String.append_assoc, String.toList_append]

theorem isPrefixOf_classLine (word name : String) :
    word.toList.isPrefixOf ("class " ++ className name ++ ":").toList =
      word.toList.isPrefixOf ("class ".toList ++ (className name ++ ":").toList) := by
  rw [String.append_assoc, String.toList_append]

theorem isPrefixOf_typingLine (word : String) (e : Endpoint) :
    word.toList.isPrefixOf (typingLine e).toList = word.toList.isPrefixOf
      ("from typing import ".toList ++ (", ".intercalate (typingImports e)).toList) :=
  congrArg (word.toList.isPrefixOf ·) String.toList_append

/-- A module declares one class and, for every verb and path of its endpoint, one function. -/
theorem linesFrom_moduleOf (h : IsEmittable name e) (htext : moduleOf e = .ok text) :
    linesFrom "def " text = (functionsFor name e).map Function.head ∧
      linesFrom "class " text = ["class " ++ className name ++ ":"] := by
  constructor
  · have hheads : ∀ l ∈ (functionsFor name e).map Function.head,
        "def ".toList.isPrefixOf l.toList = true := by
      intro l hl
      obtain ⟨f, -, rfl⟩ := List.mem_map.mp hl
      exact (isPrefixOf_head _ f).trans rfl
    have htyping : "def ".toList.isPrefixOf (typingLine e).toList = false :=
      (isPrefixOf_typingLine _ e).trans rfl
    have hclass : "def ".toList.isPrefixOf ("class " ++ className name ++ ":").toList = false :=
      (isPrefixOf_classLine _ name).trans rfl
    rw [linesFrom_moduleOf_eq "def " h htext (by decide) (by decide), List.filter_append,
      List.filter_eq_self.mpr hheads, List.filter_cons, htyping, List.filter_cons, hclass]
    rfl
  · have hheads : ∀ l ∈ (functionsFor name e).map Function.head,
        ¬"class ".toList.isPrefixOf l.toList = true := by
      intro l hl
      obtain ⟨f, -, rfl⟩ := List.mem_map.mp hl
      exact Bool.eq_false_iff.mp ((isPrefixOf_head _ f).trans rfl)
    have htyping : "class ".toList.isPrefixOf (typingLine e).toList = false :=
      (isPrefixOf_typingLine _ e).trans rfl
    have hclass : "class ".toList.isPrefixOf ("class " ++ className name ++ ":").toList = true :=
      (isPrefixOf_classLine _ name).trans rfl
    rw [linesFrom_moduleOf_eq "class " h htext (by decide) (by decide), List.filter_append,
      List.filter_eq_nil_iff.mpr hheads, List.filter_cons, htyping, List.filter_cons, hclass]
    rfl

/-- A module has one import from `typing`. -/
theorem linesFrom_typing (h : IsEmittable name e) (htext : moduleOf e = .ok text) :
    linesFrom "from typing " text = [typingLine e] := by
  have hheads : ∀ l ∈ (functionsFor name e).map Function.head,
      ¬"from typing ".toList.isPrefixOf l.toList = true := by
    intro l hl
    obtain ⟨f, -, rfl⟩ := List.mem_map.mp hl
    exact Bool.eq_false_iff.mp ((isPrefixOf_head _ f).trans rfl)
  have htyping : "from typing ".toList.isPrefixOf (typingLine e).toList = true :=
    (isPrefixOf_typingLine _ e).trans rfl
  have hclass : "from typing ".toList.isPrefixOf ("class " ++ className name ++ ":").toList =
      false := (isPrefixOf_classLine _ name).trans rfl
  rw [linesFrom_moduleOf_eq "from typing " h htext (by decide) (by decide), List.filter_append,
    List.filter_eq_nil_iff.mpr hheads, List.filter_cons, htyping, List.filter_cons, hclass]
  rfl

end Modules

end EndpointBindings.Emission
