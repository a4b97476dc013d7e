import EndpointBindings.Proofs.ModuleOutline

/-!
The characters of emitted source. Code is written in printable characters of ASCII, so any other
character of a source has come out of a text that stands in a docstring.
-/

namespace EndpointBindings.Emission

open EndpointBindings.Naming EndpointBindings.Text

section Joining

theorem mem_intercalate_iff {α : Type} {a : α} {sep : List α} {ws : List (List α)} (ha : a ∉ sep) :
    a ∈ sep.intercalate ws ↔ a ∈ ws.flatten := by
  induction ws with
  | nil => simp
  | cons w rest ih =>
      cases rest with
      | nil => simp
      | cons v more =>
          rw [List.intercalate_cons_cons, List.mem_append, List.mem_append, ih, or_iff_left ha]
          simp only [List.flatten_cons, List.mem_append]

variable {c : Char} {a b : String} {l m : List String}

/-- A character stands in one of several texts. -/
def Occurs (c : Char) (texts : List String) : Prop := ∃ text ∈ texts, c ∈ text.toList

theorem not_occurs_nil : ¬Occurs c [] := by simp [Occurs]

theorem occurs_cons : Occurs c (a :: l) ↔ c ∈ a.toList ∨ Occurs c l :=
  List.exists_mem_cons_iff _ _ _

theorem occurs_append : Occurs c (l ++ m) ↔ Occurs c l ∨ Occurs c m := by
  simp only [Occurs, List.mem_append, or_and_right, exists_or]

theorem occurs_flatMap {α : Type} {xs : List α} {texts : α → List String} :
    Occurs c (xs.flatMap texts) ↔ ∃ x ∈ xs, Occurs c (texts x) := by
  constructor
  · rintro ⟨text, htext, hc⟩
    obtain ⟨x, hx, htext⟩ := List.mem_flatMap.mp htext
    exact ⟨x, hx, text, htext, hc⟩
  · rintro ⟨x, hx, text, htext, hc⟩
    exact ⟨text, List.mem_flatMap.mpr ⟨x, hx, htext⟩, hc⟩

theorem mem_toList_append : c ∈ (a ++ b).toList ↔ c ∈ a.toList ∨ c ∈ b.toList := by
  rw [String.toList_append, List.mem_append]

theorem mem_toList_intercalate (ha : c ∉ a.toList) :
    c ∈ (a.intercalate l).toList ↔ Occurs c l := by
  rw [String.toList_intercalate, mem_intercalate_iff ha]
  simp [Occurs]

theorem mem_endLines_iff (hc : c ≠ '\n') : c ∈ (endLines l).toList ↔ Occurs c l := by
  induction l with
  | nil => simp [endLines, Occurs]
  | cons line rest ih =>
      have hend : c ∉ "\n".toList := by simpa using hc
      rw [endLines_cons, mem_toList_append, mem_toList_append, ih, occurs_cons, or_iff_left hend]

end Joining

section Shown

variable {c : Char} {cs : List Char} {a b text : String} {l : List String}

/-- Text in printable characters of ASCII. -/
def IsShown (s : String) : Prop := ∀ c ∈ s.toList, Escaped.isAsciiShown c = true

instance : Decidable (IsShown a) :=
  List.decidableBAll (fun c => Escaped.isAsciiShown c = true) a.toList

/-- A text that is given is checked faster by its characters. -/
theorem isShown_ofList (h : cs.all Escaped.isAsciiShown = true) : IsShown (String.ofList cs) := by
  intro c hc
  rw [String.toList_ofList] at hc
  exact List.all_eq_true.mp h c hc

theorem IsShown.append (ha : IsShown a) (hb : IsShown b) : IsShown (a ++ b) := by
  intro c hc
  exact (mem_toList_append.mp hc).elim (ha c) (hb c)

theorem isShown_intercalate (ha : IsShown a) (hl : ∀ b ∈ l, IsShown b) :
    IsShown (a.intercalate l) := by
  intro c hc
  by_cases hmem : c ∈ a.toList
  · exact ha c hmem
  · obtain ⟨b, hb, hc⟩ := (mem_toList_intercalate hmem).mp hc
    exact hl b hb c hc

theorem toNat_of_isNameChar (h : IsNameChar c) : 0x30 ≤ c.toNat ∧ c.toNat ≤ 0x7a := by
  rcases h with h | rfl
  · simp only [Char.isAlphanum, Char.isAlpha, Char.isUpper, Char.isLower, Char.isDigit,
      Bool.or_eq_true, Bool.and_eq_true, decide_eq_true_eq, ge_iff_le, UInt32.le_iff_toNat_le] at h
    rcases h with (⟨hlow, hhigh⟩ | ⟨hlow, hhigh⟩) | ⟨hlow, hhigh⟩ <;>
      simp at hlow hhigh <;> omega
  · decide

theorem isAsciiShown_of_isNameChar (h : IsNameChar c) : Escaped.isAsciiShown c = true := by
  obtain ⟨hlow, hhigh⟩ := toNat_of_isNameChar h
  rw [Escaped.isAsciiShown, Bool.and_eq_true, decide_eq_true_eq, decide_eq_true_eq]
  omega

theorem IsNameText.isShown (h : IsNameText a) : IsShown a :=
  fun c hc => isAsciiShown_of_isNameChar (h c hc)

theorem AreNumeral.isShown (h : AreNumeral a.toList) : IsShown a := by
  intro c hc
  rcases h c hc with hc | hc
  · exact isAsciiShown_of_isNameChar (.inl (by rw [Char.isAlphanum, hc, Bool.or_true]))
  · have hsigns : ['+', '-', '.', 'e'].all Escaped.isAsciiShown = true := by decide
    exact List.all_eq_true.mp hsigns c hc

theorem isAsciiShown_hexDigit (n : Nat) : Escaped.isAsciiShown (hexDigit n) = true := by
  have hall : "0123456789abcdef".toList.all Escaped.isAsciiShown = true := by decide
  rw [hexDigit, List.getD_eq_getElem?_getD]
  cases hd : "0123456789abcdef".toList[n]? with
  | none => decide
  | some d => exact List.all_eq_true.mp hall d (List.mem_of_getElem? hd)

theorem isAsciiShown_escapeUnit {n : Nat} (h : c ∈ Escaped.escapeUnit n) :
    Escaped.isAsciiShown c = true := by
  have hdigits : ∀ width n, ∀ d ∈ hexDigits width n, Escaped.isAsciiShown d = true := by
    intro width
    induction width with
    | zero => simp [hexDigits]
    | succ width ih =>
        intro n d hd
        rcases List.mem_append.mp hd with hd | hd
        · exact ih _ d hd
        · rw [List.mem_singleton.mp hd]
          exact isAsciiShown_hexDigit _
  rw [Escaped.escapeUnit, List.mem_cons, List.mem_cons] at h
  rcases h with rfl | rfl | h
  · decide
  · decide
  · exact hdigits 4 n c h

theorem isAsciiShown_writeChar {d : Char}
    (h : c ∈ Escaped.writeChar Escaped.isAsciiShown d) : Escaped.isAsciiShown c = true := by
  unfold Escaped.writeChar at h
  split at h
  · rename_i e he
    have hshown : Escaped.isAsciiShown e = true := by
      unfold Escaped.shortEscape? at he
      split_ifs at he <;> cases he <;> decide
    rcases List.mem_cons.mp h with rfl | h
    · decide
    · rwa [List.mem_singleton.mp h]
  · split at h
    · rename_i hd
      rwa [List.mem_singleton.mp h]
    · unfold Escaped.escapeChar at h
      dsimp only at h
      split at h
      · exact isAsciiShown_escapeUnit h
      · exact (List.mem_append.mp h).elim isAsciiShown_escapeUnit isAsciiShown_escapeUnit

/-- Whatever text a literal stands for, it is written in printable characters of ASCII. -/
theorem isShown_ascii (text : String) : IsShown (Escaped.ascii text) := by
  intro c h
  rw [Escaped.ascii, Escaped.write, String.toList_ofList, List.mem_cons, List.mem_append,
    List.mem_singleton, List.mem_flatMap] at h
  rcases h with rfl | ⟨d, -, h⟩ | rfl
  · decide
  · exact isAsciiShown_writeChar h
  · decide

end Shown

section Docstrings

variable {c : Char} {cs : List Char} {text : String}

theorem mem_escapeDoc_iff (hc : c ≠ '\\') : c ∈ escapeDoc cs ↔ c ∈ cs := by
  fun_induction escapeDoc cs with
  | case1 => simp
  | case2 rest ih => simp [hc, ih]
  | case3 rest ih => simp [hc, ih]
  | case4 d rest _ _ ih => simp [ih]

theorem mem_guardEnd_iff (hc : c ≠ ' ') : c ∈ guardEnd cs ↔ c ∈ cs := by
  unfold guardEnd
  split
  · simp [hc]
  · rfl

/-- A docstring keeps every character of a text that has to be neither escaped nor joined. -/
theorem mem_docstringText_iff (hc : Escaped.isAsciiShown c = false) :
    c ∈ (docstringText text).toList ↔ c ∈ text.toList ∧ isBlank c = false := by
  have hspace : c ≠ ' ' := by
    rintro rfl
    exact absurd hc (by decide)
  have hbackslash : c ≠ '\\' := by
    rintro rfl
    exact absurd hc (by decide)
  rw [docstringText, String.toList_ofList, mem_guardEnd_iff hspace, mem_escapeDoc_iff hbackslash,
    oneLine, mem_intercalate_iff (by simpa using hspace), words, flatten_runs, List.mem_filter,
    Bool.not_eq_true']

end Docstrings

section Code

variable {f : Function} {field : Field} {a : Argument} {k : String} {type : ValueType}

theorem isShown_enclosed {opening closing : String} (hopen : IsShown opening)
    (hclose : IsShown closing) (texts : List String) :
    IsShown (opening ++ ", ".intercalate (texts.map Escaped.ascii) ++ closing) := by
  have hitems : IsShown (", ".intercalate (texts.map Escaped.ascii)) := by
    apply isShown_intercalate (by decide)
    intro b hb
    obtain ⟨text, -, rfl⟩ := List.mem_map.mp hb
    exact isShown_ascii text
  exact (hopen.append hitems).append hclose

theorem isShown_ofType : IsShown (TypeHint.ofType type).render := by
  cases type with
  | choice options => exact isShown_enclosed (by decide) (by decide) options.texts
  | number kind =>
      rw [TypeHint.ofType]
      split <;> decide
  | string | time | boolean | list | other name =>
      rw [TypeHint.ofType, TypeHint.render]
      decide

theorem isShown_fieldHint : IsShown field.hint.render := by
  rw [Field.hint]
  split
  · exact isShown_ofType
  · exact ((by decide : IsShown "Optional[").append isShown_ofType).append (by decide)

theorem isShown_argumentLine (h : f.IsNamed) (ha : a ∈ f.arguments) :
    IsShown (argumentLine a) := by
  have hline : ∀ {name : String} {hint : TypeHint} {hasDefault : Bool}, IsShown name →
      IsShown hint.render → IsShown (argumentLine ⟨name, hint, hasDefault⟩) := by
    intro name hint hasDefault hname hhint
    have hnone : IsShown (if hasDefault then " = None" else "") := by split <;> decide
    have hrender : IsShown (name ++ ": " ++ hint.render ++ if hasDefault then " = None" else "") :=
      ((hname.append (by decide)).append hhint).append hnone
    exact ((by decide : IsShown "    ").append hrender).append (by decide)
  have hparams : IsShown "params" := by decide
  have hcls : IsShown f.paramsClass := h.paramsClass.isShown
  rcases mem_arguments_iff.mp ha with rfl | ⟨p, hp, rfl⟩ | ⟨-, rfl⟩ | rfl
  · exact hline (by decide) (by decide : IsShown "Transport")
  · exact hline (h.parts p hp).isShown isShown_ofType
  · exact hline (by decide) (by decide : IsShown "Any")
  · split
    · exact hline hparams hcls
    · exact hline hparams (((by decide : IsShown "Optional[").append hcls).append (by decide))

theorem isShown_partsMapping (h : f.IsNamed) : IsShown f.partsMapping := by
  have hentries : IsShown (", ".intercalate
      (f.parts.map fun p => Escaped.ascii p.part.name ++ ": " ++ p.name)) := by
    apply isShown_intercalate (by decide)
    intro b hb
    obtain ⟨p, hp, rfl⟩ := List.mem_map.mp hb
    exact ((isShown_ascii _).append (by decide)).append (h.parts p hp).isShown
  exact ((by decide : IsShown "\x7b").append hentries).append (by decide)

theorem isShown_keyword (h : f.IsNamed) (hk : k ∈ f.keywordArguments) : IsShown k := by
  rcases eq_of_mem_keywordArguments hk with rfl | rfl | rfl | ⟨hint, rfl⟩
  · exact (by decide : IsShown "parts=").append (isShown_partsMapping h)
  · decide
  · decide
  · exact (by decide : IsShown "serialize=").append (isShown_ascii hint)

theorem isShown_keywordLine (h : IsShown k) : IsShown (keywordLine k) :=
  ((by decide : IsShown "        ").append h).append (by decide)

theorem isShown_floatLiteral (x : Number.Binary64) : IsShown (floatLiteral x) := by
  by_cases hx : x.isFinite = true
  · rw [floatLiteral, if_pos hx]
    exact (areNumeral_text hx).isShown
  · rw [floatLiteral_of_not_finite hx]
    exact ((by decide : IsShown "float(").append (isShown_ascii _)).append (by decide)

theorem isShown_literal (d : Default) : IsShown (literal d) := by
  cases d with
  | text s => exact isShown_ascii s
  | flag b => cases b <;> decide
  | integer i => exact (areNumeral_toString i).isShown
  | float x => exact isShown_floatLiteral x
  | list texts =>
      rw [literal, tupleLiteral.eq_def]
      split
      · exact ((by decide : IsShown "(").append (isShown_ascii _)).append (by decide)
      · exact isShown_enclosed (by decide) (by decide) _

theorem isShown_fieldLine (h : IsNameText field.name) : IsShown field.line := by
  have hmetadata : IsShown field.metadata :=
    ((by decide : IsShown "metadata=\x7b\"wire\": ").append (isShown_ascii _)).append (by decide)
  have hdefault : IsShown field.defaultArgument := by
    rw [Field.defaultArgument, Field.defaultText?]
    cases field.param.required with
    | true => exact (by decide : IsShown "")
    | false =>
        cases field.param.default with
        | none => decide
        | some d =>
            exact ((by decide : IsShown "default=").append (isShown_literal d)).append (by decide)
  have hcall : IsShown (field.hint.render ++ " = dataclasses.field(") :=
    isShown_fieldHint.append (by decide)
  have hcode : IsShown field.code := (h.isShown.append (by decide)).append
    (((hcall.append hdefault).append hmetadata).append (by decide))
  rw [Field.line_eq]
  exact (by decide : IsShown "    ").append hcode

end Code

section Lines

variable {c : Char} {a b : String} {f : Function} {fields : List Field} {name : String}
  {l : List String}

theorem IsShown.not_mem (h : IsShown a) (hc : Escaped.isAsciiShown c = false) : c ∉ a.toList := by
  intro hmem
  rw [h c hmem] at hc
  exact absurd hc (by decide)

theorem IsShown.mem_append_iff (ha : IsShown a) (hc : Escaped.isAsciiShown c = false) :
    c ∈ (a ++ b).toList ↔ c ∈ b.toList := by
  rw [mem_toList_append, or_iff_right (ha.not_mem hc)]

theorem IsShown.mem_append_iff_left (hb : IsShown b) (hc : Escaped.isAsciiShown c = false) :
    c ∈ (a ++ b).toList ↔ c ∈ a.toList := by
  rw [mem_toList_append, or_iff_left (hb.not_mem hc)]

theorem not_occurs_of_isShown (h : ∀ s ∈ l, IsShown s) (hc : Escaped.isAsciiShown c = false) :
    ¬Occurs c l := by
  rintro ⟨s, hs, hmem⟩
  exact (h s hs).not_mem hc hmem

/-- The texts in the docstring of a function. -/
def Function.docTexts (f : Function) : List String :=
  (f.verb.token ++ " " ++ f.path.raw) ::
    (f.parts.filterMap (·.part.description) ++ (f.body.bind (·.description)).toList)

theorem occurs_described {description : Option String} :
    Occurs c ((Function.described name description).map (·.2)) ↔
      Occurs c (description.toList.map docstringText) := by
  unfold Function.described
  split
  · rfl
  · have hempty : docstringText "" = "" := by decide
    simp [Occurs, hempty]
  · rfl

theorem occurs_argumentDocs : Occurs c (f.argumentDocs.map (·.2)) ↔
    Occurs c ((f.parts.filterMap (·.part.description) ++
      (f.body.bind (·.description)).toList).map docstringText) := by
  have hparts : (f.parts.filterMap (·.part.description)).map docstringText =
      f.parts.flatMap fun p => p.part.description.toList.map docstringText := by
    induction f.parts with
    | nil => rfl
    | cons p rest ih => cases hp : p.part.description <;> simp [hp, ih]
  rw [Function.argumentDocs, List.map_append, List.map_append, occurs_append, occurs_append,
    List.map_flatMap, hparts, occurs_flatMap, occurs_flatMap, occurs_described]
  apply or_congr_left
  exact exists_congr fun p => and_congr_right fun _ => occurs_described

theorem isShown_of_mem_argumentDocs (h : f.IsNamed) {d : String × String}
    (hd : d ∈ f.argumentDocs) : IsShown d.1 := by
  have hdescribed : ∀ {name description}, d ∈ Function.described name description → d.1 = name := by
    intro name description hd
    unfold Function.described at hd
    split at hd
    · exact absurd hd List.not_mem_nil
    · exact absurd hd List.not_mem_nil
    · rw [List.mem_singleton.mp hd]
  rcases List.mem_append.mp hd with hd | hd
  · obtain ⟨p, hp, hd⟩ := List.mem_flatMap.mp hd
    rw [hdescribed hd]
    exact (h.parts p hp).isShown
  · rw [hdescribed hd]
    decide

theorem occurs_docLines (h : f.IsNamed) (hc : Escaped.isAsciiShown c = false) :
    Occurs c f.docLines ↔ Occurs c (f.docTexts.map docstringText) := by
  have hquotes : IsShown "    \"\"\"" := by decide
  have hlines : Occurs c (f.argumentDocs.map fun d => "        " ++ d.1 ++ ": " ++ d.2) ↔
      Occurs c (f.argumentDocs.map (·.2)) := by
    simp only [Occurs, List.mem_map, exists_exists_and_eq_and]
    apply exists_congr
    intro d
    apply and_congr_right
    intro hd
    have hlabel : IsShown ("        " ++ d.1 ++ ": ") :=
      ((by decide : IsShown "        ").append (isShown_of_mem_argumentDocs h hd)).append
        (by decide)
    exact hlabel.mem_append_iff hc
  have hopening : c ∈ ("    \"\"\"" ++ f.summary).toList ↔
      c ∈ (docstringText (f.verb.token ++ " " ++ f.path.raw)).toList :=
    hquotes.mem_append_iff hc
  rw [Function.docTexts, List.map_cons, occurs_cons, ← occurs_argumentDocs, ← hopening]
  unfold Function.docLines
  split
  · rename_i hnone
    rw [occurs_cons, (by decide : IsShown "\"\"\"").mem_append_iff_left hc,
      List.isEmpty_iff.mp hnone]
    rfl
  · have hhead : ¬Occurs c ["", "    Args:"] := not_occurs_of_isShown (by decide) hc
    rw [occurs_append, occurs_append, hlines, occurs_cons, or_iff_left hhead, or_iff_left]
    exact not_occurs_of_isShown (by decide) hc

theorem isShown_keywordLine_ascii (text : String) :
    IsShown (keywordLine ("" ++ Escaped.ascii text)) := by
  rw [String.empty_append]
  exact isShown_keywordLine (isShown_ascii text)

/-- Only its docstring brings other characters into a function. -/
theorem occurs_functionLines (h : f.IsNamed) (hc : Escaped.isAsciiShown c = false) :
    Occurs c f.lines ↔ Occurs c (f.docTexts.map docstringText) := by
  have hcode : ∀ {lines : List String}, (∀ l ∈ lines, IsShown l) → ¬Occurs c lines :=
    fun hlines => not_occurs_of_isShown hlines hc
  have hdef : IsShown ("def " ++ f.name ++ "(") :=
    ((by decide : IsShown "def ").append h.name.isShown).append (by decide)
  have harguments : ∀ l ∈ f.arguments.map argumentLine, IsShown l := by
    intro l hl
    obtain ⟨a, ha, rfl⟩ := List.mem_map.mp hl
    exact isShown_argumentLine h ha
  have hkeywords : ∀ l ∈ f.keywordArguments.map keywordLine, IsShown l := by
    intro l hl
    obtain ⟨k, hk, rfl⟩ := List.mem_map.mp hl
    exact isShown_keywordLine (isShown_keyword h hk)
  have hliteral : ∀ text, ¬Occurs c [keywordLine ("" ++ Escaped.ascii text)] := fun text =>
    hcode (List.forall_mem_singleton.mpr (isShown_keywordLine_ascii text))
  rw [lines_eq, ← occurs_docLines h hc]
  simp only [occurs_append]
  -- All lines but those of the docstring are code.
  rw [or_iff_left (hcode (by decide)), or_iff_left (hcode hkeywords), or_iff_left (hliteral _),
    or_iff_left (hliteral _), or_iff_left (hcode (by decide)), or_iff_right]
  rw [not_or, not_or]
  exact ⟨⟨hcode (List.forall_mem_singleton.mpr hdef), hcode harguments⟩, hcode (by decide)⟩

/-- Only the texts in its docstring bring other characters into a class. -/
theorem occurs_paramsClassLines (hfields : ∀ f ∈ fields, IsNameText f.name)
    (hc : Escaped.isAsciiShown c = false) :
    Occurs c (paramsClassLines name fields) ↔
      c ∈ (docstringText name).toList ∨ Occurs c (fields.map Field.doc) := by
  have hcode : ∀ {lines : List String}, (∀ l ∈ lines, IsShown l) → ¬Occurs c lines :=
    fun hlines => not_occurs_of_isShown hlines hc
  have hfirst : ¬Occurs c ["@dataclasses.dataclass(frozen=True)",
      "class " ++ className name ++ ":"] := by
    have hclass : IsShown ("class " ++ className name ++ ":") :=
      ((by decide : IsShown "class ").append isNameText_className.isShown).append (by decide)
    apply hcode
    exact List.forall_mem_cons.mpr ⟨by decide, List.forall_mem_singleton.mpr hclass⟩
  have hopening : Occurs c ["    " ++ "\"\"\"" ++ ("Query parameters accepted by \x60\x60" ++
      docstringText name ++ "\x60\x60.")] ↔ c ∈ (docstringText name).toList := by
    rw [occurs_cons, or_iff_left not_occurs_nil,
      (by decide : IsShown ("    " ++ "\"\"\"")).mem_append_iff hc,
      (by decide : IsShown "\x60\x60.").mem_append_iff_left hc,
      (by decide : IsShown "Query parameters accepted by \x60\x60").mem_append_iff hc]
  have hdoc : ∀ f ∈ fields, c ∈ f.docLine.toList ↔ c ∈ f.doc.toList := by
    intro f hf
    have hlabel : IsShown ("        " ++ f.name ++ ":") :=
      ((by decide : IsShown "        ").append (hfields f hf).isShown).append (by decide)
    rw [Field.docLine, hlabel.mem_append_iff hc]
    split
    · rename_i hempty
      rw [String.isEmpty_iff.mp hempty]
    · exact (by decide : IsShown " ").mem_append_iff hc
  have hattributes : Occurs c (attributeLines fields) ↔ Occurs c (fields.map Field.doc) := by
    unfold attributeLines
    split
    · rename_i hnone
      rw [List.isEmpty_iff.mp hnone]
      rfl
    · rw [occurs_append, or_iff_right (hcode (by decide))]
      simp only [Occurs, List.mem_map, exists_exists_and_eq_and]
      exact exists_congr fun f => and_congr_right fun hf => hdoc f hf
  have hlast : ¬Occurs c (fieldLines fields) := by
    apply hcode
    intro line hline
    rcases eq_of_mem_fieldLines hline with rfl | ⟨f, hf, rfl⟩
    · decide
    · exact isShown_fieldLine (hfields f hf)
  rw [paramsClassLines_eq]
  simp only [occurs_append]
  rw [or_iff_left hlast, or_iff_right hfirst, or_iff_left (hcode (by decide)), hopening,
    hattributes]

end Lines

end EndpointBindings.Emission
