import EndpointBindings.Emission.TypeHint
import EndpointBindings.Proofs.PlainText

/-!
The code of a source, line by line. What stands in literals is no code: the lines of code are those
that were planned, each on a line of its own, and docstrings have none.
-/

namespace EndpointBindings.Emission

open EndpointBindings.Naming EndpointBindings.Text

/-- The lines of code that start with a word; literals are emptied before. -/
def linesFrom (word source : String) : List String :=
  (((skeleton source).toList.splitOn '\n').filter (word.toList.isPrefixOf ·)).map String.ofList

section Pieces

variable {a b c : String} {l : List String}

/-- Text of code on one line, outside of literals. -/
def IsBare (s : String) : Prop := ∀ c ∈ s.toList, c ≠ '"' ∧ c ≠ '\n'

instance : Decidable (IsBare a) :=
  List.decidableBAll (fun c => c ≠ '"' ∧ c ≠ '\n') a.toList

/-- A piece of code that stays on its line. -/
def OneLine (a : String) : Prop :=
  ∃ out, '\n' ∉ out ∧ ∀ r, skeletonFrom .code (a.toList ++ r) = out ++ skeletonFrom .code r

/-- A piece that does so where no quote follows, as literals do. -/
def OneLineBefore (a : String) : Prop :=
  ∃ out, '\n' ∉ out ∧ ∀ r, r.head? ≠ some '"' →
    skeletonFrom .code (a.toList ++ r) = out ++ skeletonFrom .code r

theorem IsBare.append (ha : IsBare a) (hb : IsBare b) : IsBare (a ++ b) := by
  intro c hc
  rw [String.toList_append] at hc
  exact (List.mem_append.mp hc).elim (ha c) (hb c)

theorem isBare_intercalate (ha : IsBare a) (hl : ∀ b ∈ l, IsBare b) :
    IsBare (a.intercalate l) := by
  induction l with
  | nil => simpa using (by decide : IsBare "")
  | cons b rest ih =>
      obtain ⟨hb, hrest⟩ := List.forall_mem_cons.mp hl
      cases rest with
      | nil =>
          rw [String.intercalate_singleton]
          exact hb
      | cons c more =>
          rw [String.intercalate_cons_cons]
          exact (hb.append ha).append (ih hrest)

theorem IsNameText.isBare (h : IsNameText a) : IsBare a := by
  intro c hc
  refine ⟨(plain_of_isNameChar (h c hc)).1, ?_⟩
  rintro rfl
  rcases h _ hc with h | h <;> exact absurd h (by decide)

theorem AreNumeral.isBare (h : AreNumeral a.toList) : IsBare a := by
  intro c hc
  refine ⟨(plain_of_isNumberChar (h c hc)).1, ?_⟩
  rintro rfl
  exact absurd (h _ hc) (by decide)

theorem skeletonFrom_code_bare (h : IsBare a) (r : List Char) :
    skeletonFrom .code (a.toList ++ r) = a.toList ++ skeletonFrom .code r := by
  unfold IsBare at h
  generalize a.toList = cs at h
  induction cs with
  | nil => rfl
  | cons c more ih =>
      obtain ⟨hc, hmore⟩ := List.forall_mem_cons.mp h
      rw [List.cons_append, skeletonFrom_code_cons hc.1, ih hmore]
      rfl

theorem IsBare.oneLine (h : IsBare a) : OneLine a :=
  ⟨a.toList, fun hmem => (h _ hmem).2 rfl, skeletonFrom_code_bare h⟩

theorem OneLine.skeletonFrom_append (h : OneLine a) (r : List Char) :
    skeletonFrom .code (a.toList ++ r) = skeletonFrom .code a.toList ++ skeletonFrom .code r := by
  obtain ⟨out, -, hall⟩ := h
  have hnil := hall []
  rw [List.append_nil] at hnil
  rw [hall, hnil, List.append_assoc]
  rfl

theorem OneLine.before (h : OneLine a) : OneLineBefore a := by
  obtain ⟨out, hout, hall⟩ := h
  exact ⟨out, hout, fun r _ => hall r⟩

theorem OneLine.append (ha : OneLine a) (hb : OneLine b) : OneLine (a ++ b) := by
  obtain ⟨out, hout, ha⟩ := ha
  obtain ⟨more, hmore, hb⟩ := hb
  refine ⟨out ++ more, by simp [hout, hmore], fun r => ?_⟩
  rw [String.toList_append, List.append_assoc, ha, hb, List.append_assoc]

theorem OneLine.append_before (ha : OneLine a) (hb : OneLineBefore b) :
    OneLineBefore (a ++ b) := by
  obtain ⟨out, hout, ha⟩ := ha
  obtain ⟨more, hmore, hb⟩ := hb
  refine ⟨out ++ more, by simp [hout, hmore], fun r hr => ?_⟩
  rw [String.toList_append, List.append_assoc, ha, hb r hr, List.append_assoc]

/-- A literal is closed by any bare text that follows it. -/
theorem OneLineBefore.append (ha : OneLineBefore a) (hb : IsBare b) (hne : b ≠ "") :
    OneLine (a ++ b) := by
  obtain ⟨out, hout, ha⟩ := ha
  obtain ⟨more, hmore, hall⟩ := hb.oneLine
  refine ⟨out ++ more, by simp [hout, hmore], fun r => ?_⟩
  rw [String.toList_append, List.append_assoc, ha, hall, List.append_assoc]
  intro hquote
  cases hcs : b.toList with
  | nil => exact hne (String.toList_eq_nil_iff.mp hcs)
  | cons d rest =>
      rw [hcs] at hquote
      exact (hb d (hcs ▸ List.mem_cons_self)).1 (Option.some.inj hquote)

theorem oneLineBefore_ascii (text : String) : OneLineBefore (Escaped.ascii text) := by
  refine ⟨['"', '"'], by decide, fun r hr => ?_⟩
  rw [skeletonFrom_code_ascii hr]
  rfl

theorem OneLine.intercalate (ha : IsBare a) (hl : ∀ b ∈ l, OneLine b) :
    OneLine (a.intercalate l) := by
  induction l with
  | nil => simpa using (by decide : IsBare "").oneLine
  | cons b rest ih =>
      obtain ⟨hb, hrest⟩ := List.forall_mem_cons.mp hl
      cases rest with
      | nil =>
          rw [String.intercalate_singleton]
          exact hb
      | cons c more =>
          rw [String.intercalate_cons_cons]
          exact (hb.append ha.oneLine).append (ih hrest)

/-- Literals with one text between them, which keeps each from the next. -/
theorem OneLineBefore.intercalate (ha : IsBare a) (hne : a ≠ "") (hl : ∀ b ∈ l, OneLineBefore b) :
    OneLineBefore (a.intercalate l) := by
  induction l with
  | nil => simpa using (by decide : IsBare "").oneLine.before
  | cons b rest ih =>
      obtain ⟨hb, hrest⟩ := List.forall_mem_cons.mp hl
      cases rest with
      | nil =>
          rw [String.intercalate_singleton]
          exact hb
      | cons c more =>
          rw [String.intercalate_cons_cons]
          exact (hb.append ha hne).append_before (ih hrest)

end Pieces

section Outlines

variable {a b indent : String} {lines more code others : List String}

/-- The lines of code of a source; literals are emptied before. -/
def codeLines (source : String) : List (List Char) := (skeleton source).toList.splitOn '\n'

/-- A line of code with its literals emptied. -/
def codeOf (line : String) : List Char := skeletonFrom .code line.toList

/-- Lines of source whose code is the given lines: each of these stays on its line, and what else
the source has stands in docstrings. -/
def HasCode (lines code : List String) : Prop :=
  (∀ a ∈ code, OneLine a) ∧ ∀ r, skeletonFrom .code ((endLines lines).toList ++ r) =
    skeletonFrom .code ((endLines code).toList ++ r)

theorem codeOf_append (h : IsBare a) : codeOf (a ++ b) = a.toList ++ codeOf b := by
  rw [codeOf, String.toList_append, skeletonFrom_code_bare h]
  rfl

theorem codeOf_bare (h : IsBare a) : codeOf a = a.toList := by
  have hskeleton := skeletonFrom_code_bare h []
  rwa [List.append_nil, skeletonFrom, List.append_nil] at hskeleton

theorem OneLine.newline_notMem (h : OneLine a) : '\n' ∉ codeOf a := by
  obtain ⟨out, hout, hall⟩ := h
  have hnil := hall []
  rw [List.append_nil, skeletonFrom, List.append_nil] at hnil
  rwa [codeOf, hnil]

theorem endLines_append : endLines (lines ++ more) = endLines lines ++ endLines more := by
  unfold endLines
  rw [List.map_append, String.join_append]

theorem skeletonFrom_code_endLines (h : ∀ a ∈ code, OneLine a) (r : List Char) :
    skeletonFrom .code ((endLines code).toList ++ r) =
      (code.map codeOf).flatMap (· ++ ['\n']) ++ skeletonFrom .code r := by
  induction code with
  | nil => rfl
  | cons a rest ih =>
      obtain ⟨ha, hrest⟩ := List.forall_mem_cons.mp h
      have hend : ("\n").toList ++ ((endLines rest).toList ++ r) =
          '\n' :: ((endLines rest).toList ++ r) := rfl
      rw [endLines_cons, String.toList_append, String.toList_append, List.append_assoc,
        List.append_assoc, ha.skeletonFrom_append, hend, skeletonFrom_code_cons (by decide),
        ih hrest, List.map_cons, List.flatMap_cons, codeOf]
      simp only [List.append_assoc, List.cons_append, List.nil_append]

theorem hasCode_self (h : ∀ a ∈ lines, OneLine a) : HasCode lines lines := ⟨h, fun _ => rfl⟩

theorem hasCode_bare (h : ∀ a ∈ lines, IsBare a) : HasCode lines lines :=
  hasCode_self fun a ha => (h a ha).oneLine

theorem HasCode.append (h : HasCode lines code) (h' : HasCode more others) :
    HasCode (lines ++ more) (code ++ others) := by
  refine ⟨List.forall_mem_append.mpr ⟨h.1, h'.1⟩, fun r => ?_⟩
  rw [endLines_append, endLines_append, String.toList_append, String.toList_append,
    List.append_assoc, List.append_assoc, h.2, skeletonFrom_code_endLines h.1, h'.2,
    ← skeletonFrom_code_endLines h.1]

theorem endLines_joinLines (hl : lines ≠ []) : endLines [joinLines lines] = endLines lines := by
  rw [endLines_eq hl, endLines_cons]
  exact String.append_empty

/-- Lines may be joined to one text. -/
theorem HasCode.joined (h : HasCode lines code) (hl : lines ≠ []) :
    HasCode [joinLines lines] code := by
  rwa [HasCode, endLines_joinLines hl]

theorem toList_endLines_singleton (r : List Char) :
    (endLines [a]).toList ++ r = a.toList ++ '\n' :: r := by
  rw [endLines_cons, String.append_assoc, String.toList_append, List.append_assoc]
  rfl

/-- A docstring leaves an empty one. -/
theorem hasCode_docstring (h : IsDocstring indent lines) (hindent : IsBare indent) :
    HasCode lines [indent ++ "\"\"\"\"\"\""] := by
  obtain ⟨hl, text, htext, hlines⟩ := h
  have hquotes : ∀ text, IsSilent text → ∀ r, skeletonFrom .code
      ((indent ++ ("\"\"\"" ++ text ++ "\"\"\"")).toList ++ r) =
        indent.toList ++ "\"\"\"\"\"\"".toList ++ skeletonFrom .code r := by
    intro text htext r
    rw [String.toList_append, List.append_assoc, skeletonFrom_code_bare hindent,
      skeletonFrom_code_docstring htext, List.append_assoc]
  have hempty := hquotes "" (IsPlain.isSilent (by decide))
  have hone : OneLine (indent ++ "\"\"\"\"\"\"") := by
    refine ⟨_, fun hmem => ?_, hempty⟩
    rcases List.mem_append.mp hmem with hmem | hmem
    · exact (hindent _ hmem).2 rfl
    · exact absurd hmem (by decide)
  refine ⟨List.forall_mem_singleton.mpr hone, fun r => ?_⟩
  rw [← endLines_joinLines hl, hlines, toList_endLines_singleton, toList_endLines_singleton,
    hquotes text htext]
  exact (hempty _).symm

theorem splitOn_lines {outs : List (List Char)} (h : ∀ out ∈ outs, '\n' ∉ out) :
    (outs.flatMap (· ++ ['\n'])).splitOn '\n' = outs ++ [[]] := by
  induction outs with
  | nil => rfl
  | cons out rest ih =>
      obtain ⟨hout, hrest⟩ := List.forall_mem_cons.mp h
      rw [List.flatMap_cons, List.append_assoc, List.singleton_append,
        List.splitOn_append_cons_self, List.splitOn_eq_singleton hout, ih hrest]
      rfl

theorem HasCode.codeLines_eq (h : HasCode lines code) :
    codeLines (endLines lines) = code.map codeOf ++ [[]] := by
  have hlines : ∀ out ∈ code.map codeOf, '\n' ∉ out := by
    intro out hout
    obtain ⟨a, ha, rfl⟩ := List.mem_map.mp hout
    exact (h.1 a ha).newline_notMem
  have hskeleton : (skeleton (endLines lines)).toList =
      (code.map codeOf).flatMap (· ++ ['\n']) := by
    have hnil := (h.2 []).trans (skeletonFrom_code_endLines h.1 [])
    rw [List.append_nil, skeletonFrom, List.append_nil] at hnil
    rw [skeleton, String.toList_ofList, hnil]
  rw [codeLines, hskeleton, splitOn_lines hlines]

/-- The lines of a source that start with a word are lines of its code. -/
theorem HasCode.linesFrom_eq (h : HasCode lines code) {word : String} (hne : word ≠ "") :
    linesFrom word (endLines lines) =
      ((code.map codeOf).filter (word.toList.isPrefixOf ·)).map String.ofList := by
  have hempty : [([] : List Char)].filter (word.toList.isPrefixOf ·) = [] := by
    cases hcs : word.toList with
    | nil => exact absurd (String.toList_eq_nil_iff.mp hcs) hne
    | cons c rest => rfl
  have hfrom : linesFrom word (endLines lines) =
      ((codeLines (endLines lines)).filter (word.toList.isPrefixOf ·)).map String.ofList := rfl
  rw [hfrom, h.codeLines_eq, List.filter_append, hempty, List.append_nil]

end Outlines

section Expressions

variable {type : ValueType} {hint : TypeHint}

theorem oneLine_enclosed {opening closing : String} (hopen : IsBare opening)
    (hclose : IsBare closing) (hne : closing ≠ "") (texts : List String) :
    OneLine (opening ++ ", ".intercalate (texts.map Escaped.ascii) ++ closing) := by
  have hitems : ∀ b ∈ texts.map Escaped.ascii, OneLineBefore b := by
    intro b hb
    obtain ⟨text, -, rfl⟩ := List.mem_map.mp hb
    exact oneLineBefore_ascii text
  exact (hopen.oneLine.append_before (.intercalate (by decide) (by decide) hitems)).append
    hclose hne

/-- Hints of names stay on their line; so do all others. -/
def TypeHint.IsSafe : TypeHint → Prop
  | .named name => IsBare name
  | .optional inner => inner.IsSafe
  | _ => True

theorem oneLine_render (h : hint.IsSafe) : OneLine hint.render := by
  induction hint with
  | str | bool | int | float | any | textSequence => exact IsBare.oneLine (by decide)
  | literal options => exact oneLine_enclosed (by decide) (by decide) (by decide) options
  | named name => exact h.oneLine
  | optional inner ih =>
      have hopen : IsBare "Optional[" := by decide
      have hclose : IsBare "]" := by decide
      exact (hopen.oneLine.append (ih h)).append hclose.oneLine

theorem isSafe_ofType : (TypeHint.ofType type).IsSafe := by
  cases type with
  | number kind =>
      rw [TypeHint.ofType]
      split <;> trivial
  | _ => trivial

/-- A number that is not finite is made from its name. -/
theorem floatLiteral_of_not_finite {x : Number.Binary64} (hx : ¬x.isFinite = true) :
    floatLiteral x = "float(" ++ Escaped.ascii x.text ++ ")" := by
  cases x with
  | finite => exact absurd rfl hx
  | infinite negative => cases negative <;> decide
  | nan => decide

theorem oneLine_floatLiteral (x : Number.Binary64) : OneLine (floatLiteral x) := by
  by_cases hx : x.isFinite = true
  · rw [floatLiteral, if_pos hx]
    exact (areNumeral_text hx).isBare.oneLine
  · have hopen : IsBare "float(" := by decide
    rw [floatLiteral_of_not_finite hx]
    exact (hopen.oneLine.append_before (oneLineBefore_ascii _)).append (by decide) (by decide)

theorem oneLine_tupleLiteral (texts : List String) : OneLine (tupleLiteral texts) := by
  have hopen : IsBare "(" := by decide
  rw [tupleLiteral.eq_def]
  split
  · rename_i text
    exact (hopen.oneLine.append_before (oneLineBefore_ascii text)).append (by decide) (by decide)
  · exact oneLine_enclosed hopen (by decide) (by decide) _

theorem oneLineBefore_literal (d : Default) : OneLineBefore (literal d) := by
  cases d with
  | text s => exact oneLineBefore_ascii s
  | flag b => cases b <;> exact (IsBare.oneLine (by decide)).before
  | integer i => exact (areNumeral_toString i).isBare.oneLine.before
  | float x => exact (oneLine_floatLiteral x).before
  | list texts => exact (oneLine_tupleLiteral texts).before

end Expressions

end EndpointBindings.Emission
