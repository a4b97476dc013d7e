import EndpointBindings.Proofs.ClassNames
import EndpointBindings.Proofs.RegisteredEmission
import EndpointBindings.Proofs.TransportCall

/-!
The names that a module binds, read from its source. They are those of its imports, its class and
its functions; the name of the class is bound once, and every function tells it.
-/

namespace EndpointBindings.Emission

open EndpointBindings.Naming EndpointBindings.Text

/-- The words of a line: its longest runs of characters of names. -/
def lineWords (line : List Char) : List String :=
  ((line.splitOnP isNameEnd).filter (· ≠ [])).map String.ofList

/-- The names that a statement binds: those that it imports, or the one of a class or a function. -/
def boundBy (line : String) : List String :=
  match lineWords line.toList with
  | "import" :: names => names
  | "from" :: more => (more.dropWhile (· ≠ "import")).drop 1
  | "class" :: name :: _ => [name]
  | "def" :: name :: _ => [name]
  | _ => []

/-- Whether a line starts with a word, right at the margin. -/
def startsWithWord (line : String) : Bool := line.toList.head?.any (!isNameEnd ·)

/-- The names that lines at the margin bind. -/
def boundIn (lines : List String) : List String := (lines.filter startsWithWord).flatMap boundBy

/-- The names that a source binds. -/
def boundNames (source : String) : List String := boundIn (sourceLines source)

example : boundNames "from a import b, c\nclass D:\n    def e(self):\n        ..." =
    ["b", "c", "D"] := by
  decide

section Words

variable {name : String} {c : Char} {cs rest : List Char} {names : List String}

theorem lineWords_append (hc : isNameEnd c = true) :
    lineWords (cs ++ c :: rest) = lineWords cs ++ lineWords rest := by
  rw [lineWords, List.splitOnP_append_cons _ _ hc, List.filter_append, List.map_append]
  rfl

theorem lineWords_cons (hc : isNameEnd c = true) : lineWords (c :: rest) = lineWords rest :=
  @lineWords_append c [] rest hc

theorem lineWords_name (h : IsNameText name) (hne : name ≠ "") :
    lineWords name.toList = [name] := by
  have hchars : ∀ c ∈ name.toList, isNameEnd c = false := by
    intro c hc
    rcases h c hc with hc | hc <;> simp [isNameEnd, hc]
  have hlist : name.toList ≠ [] := fun hnil => hne (String.toList_eq_nil_iff.mp hnil)
  rw [lineWords, List.splitOnP_eq_singleton hchars, List.filter_cons_of_pos (by simpa using hlist)]
  simp

theorem lineWords_intercalate (h : ∀ n ∈ names, IsNameText n ∧ n ≠ "") :
    lineWords (", ".intercalate names).toList = names := by
  induction names with
  | nil => decide
  | cons n rest ih =>
      obtain ⟨⟨hn, hne⟩, hrest⟩ := List.forall_mem_cons.mp h
      cases rest with
      | nil => rw [String.intercalate_singleton, lineWords_name hn hne]
      | cons m more =>
          have hlist : (", ".intercalate (n :: m :: more)).toList =
              n.toList ++ ',' :: ' ' :: (", ".intercalate (m :: more)).toList := by
            rw [String.intercalate_cons_cons, String.toList_append, String.toList_append]
            simp
          rw [hlist, lineWords_append (by decide), lineWords_cons (by decide), ih hrest,
            lineWords_name hn hne]
          rfl

/-- A line that declares something binds its name. -/
theorem boundBy_declaration {word : String} (hword : word = "class" ∨ word = "def")
    (h : IsNameText name) (hne : name ≠ "") (hc : isNameEnd c = true)
    {line : String} (hline : line.toList = word.toList ++ ' ' :: (name.toList ++ c :: rest)) :
    boundBy line = [name] := by
  have hwords : lineWords line.toList = word :: name :: lineWords rest := by
    rw [hline, lineWords_append (by decide), lineWords_append hc, lineWords_name h hne]
    rcases hword with rfl | rfl <;> rfl
  rw [boundBy, hwords]
  rcases hword with rfl | rfl <;> rfl

theorem boundBy_fromImport {module : List Char} (h : ∀ n ∈ names, IsNameText n ∧ n ≠ "")
    (hmodule : "import" ∉ lineWords module) {line : String}
    (hline : line.toList = "from".toList ++ ' ' :: (module ++ ' ' :: ("import".toList ++ ' ' ::
      (", ".intercalate names).toList))) :
    boundBy line = names := by
  have hwords : lineWords line.toList = "from" :: (lineWords module ++ "import" :: names) := by
    rw [hline, lineWords_append (by decide), lineWords_append (by decide),
      lineWords_append (by decide), lineWords_intercalate h]
    rfl
  rw [boundBy, hwords]
  change ((lineWords module ++ "import" :: names).dropWhile (· ≠ "import")).drop 1 = names
  rw [List.dropWhile_append_of_pos]
  · simp
  · intro w hw
    simpa using ne_of_mem_of_not_mem hw hmodule

end Words

section Sources

variable {a b name cls text : String} {l lines more : List String} {f : Function}
  {fs : List Function} {e : Endpoint} {bindings : List Binding}

theorem boundIn_append : boundIn (lines ++ more) = boundIn lines ++ boundIn more := by
  rw [boundIn, List.filter_append, List.flatMap_append]
  rfl

theorem boundIn_eq_nil (h : ∀ l ∈ lines, startsWithWord l = false) : boundIn lines = [] := by
  rw [boundIn, List.filter_eq_nil_iff.mpr fun l hl => by simp [h l hl]]
  rfl

theorem boundIn_singleton (h : startsWithWord a = true) : boundIn [a] = boundBy a := by
  simp [boundIn, h]

theorem startsWithWord_append (hne : a ≠ "") : startsWithWord (a ++ b) = startsWithWord a := by
  have hlist : a.toList ≠ [] := fun hnil => hne (String.toList_eq_nil_iff.mp hnil)
  obtain ⟨c, rest, hc⟩ := List.exists_cons_of_ne_nil hlist
  rw [startsWithWord, startsWithWord, String.toList_append, hc]
  rfl

theorem startsWithWord_indented : startsWithWord ("    " ++ a) = false :=
  startsWithWord_append (by decide)

theorem boundNames_endLines : boundNames (endLines lines) = lines.flatMap boundNames := by
  rw [boundNames, sourceLines_endLines, boundIn_append, @boundIn_eq_nil [""] (by decide),
    List.append_nil]
  induction lines with
  | nil => rfl
  | cons l rest ih => rw [List.flatMap_cons, boundIn_append, ih, List.flatMap_cons, boundNames]

theorem startsWithWord_docLines (hl : a ∈ f.docLines) : startsWithWord a = false := by
  have hopen : startsWithWord ("    \"\"\"" ++ f.summary) = false :=
    startsWithWord_append (by decide)
  unfold Function.docLines at hl
  split at hl
  · obtain rfl := List.mem_singleton.mp hl
    rw [String.append_assoc]
    exact startsWithWord_append (by decide)
  · simp only [List.mem_append, List.mem_cons, List.not_mem_nil, or_false] at hl
    rcases hl with ((rfl | rfl | rfl) | hl) | rfl
    · exact hopen
    · decide
    · decide
    · obtain ⟨d, -, rfl⟩ := List.mem_map.mp hl
      rw [String.append_assoc, String.append_assoc]
      exact startsWithWord_append (by decide)
    · decide

theorem startsWithWord_map {α : Type} {texts : List α} {text : α → String}
    (h : ∀ x, startsWithWord (text x) = false) :
    ∀ l ∈ texts.map text, startsWithWord l = false := by
  intro l hl
  obtain ⟨x, -, rfl⟩ := List.mem_map.mp hl
  exact h x

/-- A function binds its name and nothing else. -/
theorem boundNames_render (h : f.IsNamed) (hne : f.name ≠ "") : boundNames f.render = [f.name] := by
  have hdef : boundIn ["def " ++ f.name ++ "("] = [f.name] := by
    have hstart : startsWithWord ("def " ++ f.name ++ "(") = true := by
      rw [String.append_assoc]
      exact startsWithWord_append (by decide)
    rw [boundIn_singleton hstart]
    have hline : ("def " ++ f.name ++ "(").toList =
        "def".toList ++ ' ' :: (f.name.toList ++ '(' :: []) := by simp
    exact boundBy_declaration (.inr rfl) h.name hne (by decide) hline
  have hargument : ∀ a, startsWithWord (argumentLine a) = false := fun a => by
    rw [argumentLine, String.append_assoc]
    exact startsWithWord_append (by decide)
  have hkeyword : ∀ k, startsWithWord (keywordLine k) = false := fun k => by
    rw [keywordLine, String.append_assoc]
    exact startsWithWord_append (by decide)
  have hliteral : ∀ k, boundIn [keywordLine k] = [] := fun k =>
    boundIn_eq_nil (List.forall_mem_singleton.mpr (hkeyword k))
  have hreturns : boundIn [") -> Any:"] = [] := boundIn_eq_nil (by decide)
  have hcall : boundIn ["    return transport.request("] = [] := boundIn_eq_nil (by decide)
  have hclose : boundIn ["    )"] = [] := boundIn_eq_nil (by decide)
  rw [boundNames, sourceLines_render h, lines_eq]
  simp only [boundIn_append, hdef, hreturns, hcall, hclose, hliteral, List.append_nil,
    boundIn_eq_nil (startsWithWord_map hargument), boundIn_eq_nil (startsWithWord_map hkeyword),
    boundIn_eq_nil fun l hl => startsWithWord_docLines hl]

theorem className_ne_empty : className name ≠ "" := by
  obtain ⟨d, rest, -, h, -⟩ := @exists_className_eq name
  intro hempty
  simp [hempty] at h

/-- The class of an endpoint binds its name and nothing else. -/
theorem boundNames_paramsClass (hname : e.name = some name) (h : paramsClass e = .ok cls) :
    boundNames cls = [className name] := by
  have hclass : boundIn ["class " ++ className name ++ ":"] = [className name] := by
    have hstart : startsWithWord ("class " ++ className name ++ ":") = true := by
      rw [String.append_assoc]
      exact startsWithWord_append (by decide)
    rw [boundIn_singleton hstart]
    have hline : ("class " ++ className name ++ ":").toList =
        "class".toList ++ ' ' :: ((className name).toList ++ ':' :: []) := by simp
    exact boundBy_declaration (.inl rfl) isNameText_className className_ne_empty (by decide) hline
  have hdecorator : boundIn ["@dataclasses.dataclass(frozen=True)"] = [] :=
    boundIn_eq_nil (by decide)
  have hopen : ∀ text, boundIn ["    " ++ "\"\"\"" ++ text] = [] := fun text =>
    boundIn_eq_nil (List.forall_mem_singleton.mpr (startsWithWord_append (by decide)))
  have hattributes : boundIn (attributeLines (fieldsOf e)) = [] := by
    unfold attributeLines
    split
    · rfl
    · rw [boundIn_append, @boundIn_eq_nil ["", "    Attributes:"] (by decide)]
      refine boundIn_eq_nil (startsWithWord_map fun f => ?_)
      rw [Field.docLine, String.append_assoc, String.append_assoc]
      exact startsWithWord_append (by decide)
  have hclose : boundIn ["    " ++ "\"\"\""] = [] := boundIn_eq_nil (by decide)
  have hfields : boundIn (fieldLines (fieldsOf e)) = [] := by
    apply boundIn_eq_nil
    intro line hline
    rcases eq_of_mem_fieldLines hline with rfl | ⟨f, -, rfl⟩
    · decide
    · rw [Field.line_eq]
      exact startsWithWord_indented
  have hhead : boundIn ["@dataclasses.dataclass(frozen=True)",
      "class " ++ className name ++ ":"] = [className name] := by
    rw [← List.singleton_append, boundIn_append, hdecorator, hclass, List.nil_append]
  rw [boundNames, sourceLines_paramsClass hname h, paramsClassLines_eq]
  simp only [boundIn_append, hhead, hopen, hattributes, hclose, hfields, List.append_nil]

theorem sourceLines_gap :
    sourceLines (a ++ "\n\n\n" ++ b) = sourceLines a ++ ["", ""] ++ sourceLines b := by
  have hgap : a ++ "\n\n\n" ++ b = a ++ "\n" ++ "" ++ "\n" ++ "" ++ "\n" ++ b := by
    apply String.toList_inj.mp
    simp
  have hempty : sourceLines "" = [""] := sourceLines_singleton (by decide)
  rw [hgap, sourceLines_append_end, sourceLines_append_end, sourceLines_append_end, hempty,
    List.append_assoc (sourceLines a)]
  rfl

theorem boundNames_gap : boundNames (a ++ "\n\n\n" ++ b) = boundNames a ++ boundNames b := by
  rw [boundNames, sourceLines_gap, boundIn_append, boundIn_append,
    @boundIn_eq_nil ["", ""] (by decide), List.append_nil]
  rfl

theorem boundNames_renders (hfs : fs ≠ []) (h : ∀ f ∈ fs, f.IsNamed ∧ f.name ≠ "") :
    boundNames ("\n\n\n".intercalate (fs.map Function.render)) = fs.map (·.name) := by
  induction fs with
  | nil => exact absurd rfl hfs
  | cons f rest ih =>
      obtain ⟨⟨hf, hne⟩, hrest⟩ := List.forall_mem_cons.mp h
      cases rest with
      | nil => rw [List.map_singleton, String.intercalate_singleton, boundNames_render hf hne]; rfl
      | cons g more =>
          rw [List.map_cons, List.map_cons, String.intercalate_cons_cons, boundNames_gap,
            boundNames_render hf hne]
          exact congrArg (f.name :: ·) (ih (List.cons_ne_nil _ _) hrest)

theorem isNameText_of_mem_typingImports {n : String} (h : n ∈ typingImports e) :
    IsNameText n ∧ n ≠ "" := by
  have hall : ∀ n ∈ typingOrder, n.toList.all Char.isAlphanum = true ∧ n ≠ "" := by decide
  obtain ⟨hchars, hne⟩ := hall n (List.mem_filter.mp h).1
  exact ⟨fun c hc => .inl (List.all_eq_true.mp hchars c hc), hne⟩

theorem boundBy_typingLine : boundBy (typingLine e) = typingImports e := by
  have hlist : (typingLine e).toList =
      "from".toList ++ ' ' :: ("typing".toList ++ ' ' :: ("import".toList ++ ' ' ::
        (", ".intercalate (typingImports e)).toList)) := String.toList_append
  exact boundBy_fromImport (fun _ => isNameText_of_mem_typingImports) (by decide) hlist

theorem boundNames_typingLine :
    boundNames ("from typing import " ++ ", ".intercalate (typingImports e)) = typingImports e := by
  have hline : IsLine (typingLine e) := isBare_typingLine.isLine
  have hstart : startsWithWord (typingLine e) = true :=
    (startsWithWord_append (by decide)).trans (by decide)
  exact (congrArg boundIn (sourceLines_singleton hline)).trans
    ((boundIn_singleton hstart).trans boundBy_typingLine)

theorem boundNames_importLines : (importLines e).flatMap boundNames =
    ["annotations", "dataclasses"] ++ typingImports e ++ ["Transport"] := by
  have hempty : boundNames "" = [] := by decide
  have hfuture : boundNames "from __future__ import annotations" = ["annotations"] := by decide
  have hdataclasses : boundNames "import dataclasses" = ["dataclasses"] := by decide
  have htransport : boundNames ("from ." ++ transportModule ++ " import Transport") =
      ["Transport"] := by decide
  simp only [importLines, List.flatMap_cons, List.flatMap_nil, hempty, hfuture, hdataclasses,
    boundNames_typingLine, htransport, List.nil_append, List.append_nil, List.cons_append]

theorem boundNames_documentation (h : IsLine a) : boundNames ("Documentation: " ++ a) = [] := by
  have hword : lineWords "Documentation".toList = ["Documentation"] := by decide
  have hlist : ("Documentation: " ++ a).toList =
      "Documentation".toList ++ ':' :: ' ' :: a.toList := by
    simp
  have hwords : lineWords ("Documentation: " ++ a).toList =
      "Documentation" :: lineWords a.toList := by
    rw [hlist, lineWords_append (by decide), lineWords_cons (by decide), hword,
      List.singleton_append]
  have hline : IsLine ("Documentation: " ++ a) := (by decide : IsLine "Documentation: ").append h
  have hstart : startsWithWord ("Documentation: " ++ a) = true :=
    (startsWithWord_append (by decide)).trans (by decide)
  rw [boundNames, sourceLines_singleton hline, boundIn_singleton hstart, boundBy, hwords]
  rfl

theorem boundNames_documentationLines : (documentationLines e).flatMap boundNames = [] := by
  have hempty : boundNames "" = [] := by decide
  unfold documentationLines
  dsimp only
  split
  · rfl
  · rw [List.flatMap_cons, List.flatMap_singleton, hempty,
      boundNames_documentation (isLine_docstringText _), List.append_nil]

theorem boundNames_moduleLines (hname : e.name = some name) (h : paramsClass e = .ok cls) :
    (moduleLines e cls).flatMap boundNames =
      ["annotations", "dataclasses"] ++ typingImports e ++ ["Transport", className name] := by
  have hopen : boundNames ("" ++ "\"\"\"" ++ ("Client bindings for the \x60\x60" ++
      docstringText (e.name.getD "") ++ "\x60\x60 endpoint.")) = [] := by
    have hline : IsLine ("" ++ "\"\"\"" ++ ("Client bindings for the \x60\x60" ++
        docstringText (e.name.getD "") ++ "\x60\x60 endpoint.")) :=
      (by decide : IsLine ("" ++ "\"\"\"")).append (((by decide :
        IsLine "Client bindings for the \x60\x60").append (isLine_docstringText _)).append
          (by decide))
    rw [boundNames, sourceLines_singleton hline]
    exact boundIn_eq_nil (List.forall_mem_singleton.mpr
      ((startsWithWord_append (by decide)).trans (by decide)))
  have hgenerated : ["", "Generated by " ++ generator ++ ". Do not edit."].flatMap boundNames =
      [] := by decide
  have hclose : boundNames ("" ++ "\"\"\"") = [] := by decide
  rw [moduleLines_eq]
  simp only [List.flatMap_append, List.flatMap_singleton, hopen, boundNames_documentationLines,
    hgenerated, hclose, boundNames_importLines, boundNames_paramsClass hname h, List.nil_append]
  simp only [List.append_assoc, List.cons_append, List.nil_append]

/-- A function that is named and starts with the word of its verb. -/
theorem of_mem_functionsFor (hf : f ∈ functionsFor name e) :
    f.IsNamed ∧ StartsWith f.verb f.name := by
  refine ⟨isNamed_of_mem_functionsFor hf, ?_⟩
  obtain ⟨verb, -, hf⟩ := List.mem_flatMap.mp hf
  rw [verb_of_mem_functionsOf hf]
  exact startsWith_of_mem_functionsOf hf

theorem of_mem_functions {b : Binding}
    (hb : b ∈ (Verb.canonical e.verbs).map (bindingOf name e)) (h : e.paths ≠ []) :
    b.functions ≠ [] ∧ ∀ f ∈ b.functions, f ∈ functionsFor name e := by
  obtain ⟨verb, hverb, rfl⟩ := List.mem_map.mp hb
  exact ⟨functions_ne_nil h _ verb, fun f hf => List.mem_flatMap.mpr ⟨verb, hverb, hf⟩⟩

theorem boundNames_bindings (h : ∀ b ∈ bindings, b.functions ≠ [] ∧
    ∀ f ∈ b.functions, f.IsNamed ∧ f.name ≠ "") :
    (bindings.flatMap fun b => ["", "", b.body]).flatMap boundNames =
      bindings.flatMap fun b => b.functions.map (·.name) := by
  have hempty : boundNames "" = [] := by decide
  rw [List.flatMap_assoc]
  apply List.flatMap_congr
  intro b hb
  obtain ⟨hne, hfunctions⟩ := h b hb
  simp only [List.flatMap_cons, List.flatMap_nil, hempty, Binding.body,
    boundNames_renders hne hfunctions, List.nil_append, List.append_nil]

/-- A module binds what it imports, its class and its functions. -/
theorem boundNames_moduleOf (h : IsEmittable name e) (htext : moduleOf e = .ok text) :
    boundNames text = ["annotations", "dataclasses"] ++ typingImports e ++
      ["Transport", className name] ++ (functionsFor name e).map (·.name) := by
  have hbindings : ∀ b ∈ (Verb.canonical e.verbs).map (bindingOf name e),
      b.functions ≠ [] ∧ ∀ f ∈ b.functions, f.IsNamed ∧ f.name ≠ "" := by
    intro b hb
    obtain ⟨hne, hfunctions⟩ := of_mem_functions hb h.2.2
    refine ⟨hne, fun f hf => ?_⟩
    obtain ⟨hnamed, hstart⟩ := of_mem_functionsFor (hfunctions f hf)
    refine ⟨hnamed, fun hempty => ?_⟩
    obtain ⟨c, rest, hc, -⟩ := hstart.isIdentifier.start
    simp [hempty] at hc
  rw [moduleOf_eq h] at htext
  obtain ⟨cls, hcls, htext⟩ := bind_eq_ok.mp htext
  obtain rfl := Except.ok.inj htext
  rw [boundNames_endLines, List.flatMap_append, boundNames_moduleLines h.1 hcls,
    boundNames_bindings hbindings, List.flatMap_map, functionsFor, List.map_flatMap]
  rfl

/-- Neither an import nor a function has the name of a class. -/
theorem count_className (h : IsEmittable name e) (htext : moduleOf e = .ok text) :
    (boundNames text).count (className name) = 1 := by
  have hending : ∀ n, ¬"Params".toList <:+ n.toList → className name ≠ n := by
    rintro n hn rfl
    apply hn
    rw [toList_className]
    exact List.suffix_append _ _
  have htyping : className name ∉ typingImports e := by
    intro hmem
    have hall : ∀ n ∈ typingOrder, ¬"Params".toList <:+ n.toList := by decide
    exact hending _ (hall _ (List.mem_filter.mp hmem).1) rfl
  have hfunctions : className name ∉ (functionsFor name e).map (·.name) := by
    intro hmem
    obtain ⟨f, hf, heq⟩ := List.mem_map.mp hmem
    exact (of_mem_functionsFor hf).2.ne_className heq.symm
  have hfixed : className name ∉ ["annotations", "dataclasses", "Transport"] := by
    intro hmem
    have hall : ∀ n ∈ ["annotations", "dataclasses", "Transport"],
        ¬"Params".toList <:+ n.toList := by decide
    exact hending _ (hall _ hmem) rfl
  simp only [List.mem_cons, List.not_mem_nil, or_false, not_or] at hfixed
  rw [boundNames_moduleOf h htext]
  simp only [List.count_append, List.count_cons, List.count_nil, List.count_eq_zero.mpr htyping,
    List.count_eq_zero.mpr hfunctions, beq_iff_eq, Ne.symm hfixed.1, Ne.symm hfixed.2.1,
    Ne.symm hfixed.2.2, if_false, if_true]

theorem infix_sourceLines_renders (hf : f ∈ fs) :
    sourceLines f.render <:+: sourceLines ("\n\n\n".intercalate (fs.map Function.render)) := by
  induction fs with
  | nil => exact absurd hf List.not_mem_nil
  | cons g rest ih =>
      cases rest with
      | nil =>
          obtain rfl := List.mem_singleton.mp hf
          rw [List.map_singleton, String.intercalate_singleton]
      | cons g' more =>
          rw [List.map_cons, List.map_cons, String.intercalate_cons_cons, sourceLines_gap]
          rcases List.mem_cons.mp hf with rfl | hf
          · rw [List.append_assoc]
            exact (List.prefix_append _ _).isInfix
          · exact (ih hf).trans (List.suffix_append _ _).isInfix

/-- The lines of each function stand in its module. -/
theorem infix_sourceLines_moduleOf (h : IsEmittable name e) (htext : moduleOf e = .ok text)
    (hf : f ∈ functionsFor name e) : f.lines <:+: sourceLines text := by
  obtain ⟨verb, hverb, hfunction⟩ := List.mem_flatMap.mp hf
  have hb : bindingOf name e verb ∈ (Verb.canonical e.verbs).map (bindingOf name e) :=
    List.mem_map_of_mem hverb
  rw [moduleOf_eq h] at htext
  obtain ⟨cls, hcls, htext⟩ := bind_eq_ok.mp htext
  obtain rfl := Except.ok.inj htext
  have hbody : (bindingOf name e verb).body ∈ moduleLines e cls ++
      ((Verb.canonical e.verbs).map (bindingOf name e)).flatMap fun b => ["", "", b.body] :=
    List.mem_append_right _ (List.mem_flatMap.mpr ⟨_, hb, by simp⟩)
  rw [sourceLines_endLines, ← sourceLines_render (of_mem_functionsFor hf).1]
  refine (infix_sourceLines_renders hfunction).trans ?_
  exact (List.infix_of_mem_flatten (List.mem_map_of_mem hbody)).trans
    (List.prefix_append _ _).isInfix

/-- The line of the argument for the parameters. -/
def paramsLine (cls : String) (required : Bool) : String :=
  "    params: " ++ (if required then cls else "Optional[" ++ cls ++ "] = None") ++ ","

theorem paramsLine_mem_lines : paramsLine f.paramsClass f.paramsRequired ∈ f.lines := by
  have hargument : ∃ a ∈ f.arguments,
      argumentLine a = paramsLine f.paramsClass f.paramsRequired := by
    unfold Function.arguments paramsLine
    cases f.paramsRequired with
    | true =>
        refine ⟨⟨"params", .named f.paramsClass, false⟩, by simp, ?_⟩
        apply String.toList_inj.mp
        simp [argumentLine, Argument.render, TypeHint.render]
    | false =>
        refine ⟨⟨"params", .optional (.named f.paramsClass), true⟩, by simp, ?_⟩
        apply String.toList_inj.mp
        simp [argumentLine, Argument.render, TypeHint.render]
  obtain ⟨a, ha, hline⟩ := hargument
  have hmem : argumentLine a ∈ f.arguments.map argumentLine := List.mem_map_of_mem ha
  rw [lines_eq, ← hline]
  simp only [List.mem_append]
  tauto

theorem paramsClass_of_mem_functionsOf {verb : Verb} {taken : List String}
    {paths : List PathTemplate} (hf : f ∈ functionsOf e cls verb taken paths) :
    f.paramsClass = cls := by
  obtain ⟨path, -, k, rfl⟩ := exists_functionOf_eq hf
  rfl

/-- The class of an endpoint is declared, and named in every function, by a name that is no keyword
and that nothing else in the module binds. It is an identifier unless the first letter or digit of
the endpoint's name is a digit. -/
theorem className_bound_once (name : String) :
    (IsIdentifier (className name) ↔
      ∀ c, name.toList.find? isWordChar = some c → c.isDigit = false) ∧
    className name ∉ keywords ∧
    ∀ e text, IsEmittable name e → moduleOf e = .ok text →
      boundNames text = ["annotations", "dataclasses"] ++ typingImports e ++
        ["Transport", className name] ++ (functionsFor name e).map (·.name) ∧
      (boundNames text).count (className name) = 1 ∧
      linesFrom "class " text = ["class " ++ className name ++ ":"] ∧
      ∀ f ∈ functionsFor name e, f.lines <:+: sourceLines text ∧
        paramsLine (className name) f.paramsRequired ∈ f.lines := by
  refine ⟨className_isIdentifier_iff, className_notKeyword, fun e text h htext => ?_⟩
  refine ⟨boundNames_moduleOf h htext, count_className h htext, (linesFrom_moduleOf h htext).2,
    fun f hf => ⟨infix_sourceLines_moduleOf h htext hf, ?_⟩⟩
  obtain ⟨verb, -, hfunction⟩ := List.mem_flatMap.mp hf
  rw [← paramsClass_of_mem_functionsOf hfunction]
  exact paramsLine_mem_lines

theorem className_bound_once_search :
    IsIdentifier "SearchParams" ∧
      ∃ text, IsEmittable "search" (withTexts "" "/" "" "") ∧
        moduleOf (withTexts "" "/" "" "") = .ok text ∧
        (boundNames text).count "SearchParams" = 1 := by
  have hcls : className "search" = "SearchParams" := by decide +kernel
  obtain ⟨hidentifier, -, hmodule⟩ := className_bound_once "search"
  have hemittable : IsEmittable "search" (withTexts "" "/" "" "") :=
    ⟨rfl, by simp [withTexts], by simp [withTexts]⟩
  obtain ⟨text, htext⟩ : ∃ text, moduleOf (withTexts "" "/" "" "") = .ok text := ⟨_, rfl⟩
  have hcount := (hmodule _ text hemittable htext).2.1
  rw [hcls] at hidentifier hcount
  refine ⟨hidentifier.mpr fun c hc => ?_, text, hemittable, htext, hcount⟩
  obtain rfl : 's' = c := Option.some.inj (hc.symm.trans (by decide)).symm
  decide

/-- The underscore that keeps the digit from the start of the identifier is lost in the class. -/
theorem className_starts_with_digit :
    identifier "2fa" = "_2fa" ∧ className "2fa" = "2faParams" ∧ ¬IsIdentifier "2faParams" ∧
      ∃ text, moduleOf (tokenEndpoint "2fa" none) = .ok text ∧
        linesFrom "class " text = ["class 2faParams:"] := by
  have hcls : className "2fa" = "2faParams" := by decide +kernel
  have hemittable : IsEmittable "2fa" (tokenEndpoint "2fa" none) :=
    ⟨rfl, by simp [tokenEndpoint], by simp [tokenEndpoint]⟩
  obtain ⟨text, htext⟩ : ∃ text, moduleOf (tokenEndpoint "2fa" none) = .ok text := ⟨_, rfl⟩
  have hlines := (linesFrom_moduleOf hemittable htext).2
  rw [hcls] at hlines
  refine ⟨by decide +kernel, hcls, fun hidentifier => ?_, text, htext, hlines⟩
  obtain ⟨c, rest, hc, hstart⟩ := hidentifier.start
  obtain rfl : '2' = c := (List.cons.inj hc).1
  exact absurd hstart (by decide)

end Sources

end EndpointBindings.Emission
