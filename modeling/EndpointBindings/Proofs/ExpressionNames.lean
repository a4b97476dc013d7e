import EndpointBindings.Proofs.DefaultTyping
import EndpointBindings.Proofs.TransportCall
import EndpointBindings.Proofs.SourceOutline

/-!
The names that an expression evaluates. An emitted literal evaluates none, unless it is a call: that
of a default that is no finite number.
-/

namespace EndpointBindings.Emission

open EndpointBindings.Naming EndpointBindings.Number EndpointBindings.Text

/-- The name that a word of an expression evaluates: none where it is an attribute, the keyword of
an argument, a number or a word of the language. -/
def nameOf (dotted keyword : Bool) (word : List Char) : List String :=
  if dotted || keyword || word.head?.all Char.isDigit || String.ofList word ∈ keywords then []
  else [String.ofList word]

/-- The names that an expression evaluates, its literals being empty. The word before the text may
have begun, and may stand behind a point. -/
def namesFrom (dotted : Bool) (word : List Char) : List Char → List String
  | [] => nameOf dotted false word
  | c :: rest =>
    if isNameEnd c then nameOf dotted (c == '=') word ++ namesFrom (c == '.') [] rest
    else namesFrom dotted (word ++ [c]) rest

example : namesFrom false [] "f(a.b, c=1.5e-05, d=None, e=g)".toList = ["f", "a", "g"] := by decide

section Expressions

variable {dotted : Bool} {c : Char} {cs w ds rest : List Char}

theorem namesFrom_word (h : ∀ c ∈ w, isNameEnd c = false) (hc : isNameEnd c = true) :
    namesFrom dotted [] (w ++ c :: rest) =
      nameOf dotted (c == '=') w ++ namesFrom (c == '.') [] rest := by
  suffices hword : ∀ before, namesFrom dotted before (w ++ c :: rest) =
      nameOf dotted (c == '=') (before ++ w) ++ namesFrom (c == '.') [] rest from hword []
  induction w with
  | nil =>
      intro before
      rw [List.nil_append, namesFrom, if_pos hc, List.append_nil]
  | cons d more ih =>
      obtain ⟨hd, hmore⟩ := List.forall_mem_cons.mp h
      intro before
      rw [List.cons_append, namesFrom, if_neg (by simp [hd]), ih hmore, List.append_assoc]
      rfl

theorem namesFrom_append_signs (h : ∀ c ∈ cs, isNameEnd c = true ∧ c ≠ '.') :
    namesFrom false [] (cs ++ rest) = namesFrom false [] rest := by
  induction cs with
  | nil => rfl
  | cons c more ih =>
      obtain ⟨⟨hc, hpoint⟩, hmore⟩ := List.forall_mem_cons.mp h
      rw [List.cons_append, namesFrom, if_pos hc, beq_eq_false_iff_ne.mpr hpoint, ih hmore]
      cases c == '=' <;> rfl

theorem nameOf_digits (h : ∃ d more, w = d :: more ∧ d.isDigit = true) :
    nameOf dotted false w = [] := by
  obtain ⟨d, more, rfl, hd⟩ := h
  simp [nameOf, hd]

theorem not_isNameEnd_of_isDigit (h : c.isDigit = true) : isNameEnd c = false := by
  simp [isNameEnd, Char.isAlphanum, h]

/-- A word that starts with a digit evaluates nothing. -/
theorem namesFrom_digits {more : List Char} (h : AreDigits ds)
    (hmore : ∀ c ∈ more, isNameEnd c = false) (hc : isNameEnd c = true) (hequals : c ≠ '=') :
    namesFrom dotted [] (ds ++ more ++ c :: rest) = namesFrom (c == '.') [] rest := by
  obtain ⟨d, ds, rfl⟩ := List.exists_cons_of_ne_nil h.1
  have hword : ∀ c ∈ d :: ds ++ more, isNameEnd c = false := by
    intro c hc
    rcases List.mem_append.mp hc with hc | hc
    · exact not_isNameEnd_of_isDigit (h.2 c hc)
    · exact hmore c hc
  rw [namesFrom_word hword hc, beq_eq_false_iff_ne.mpr hequals,
    nameOf_digits (w := d :: ds ++ more) ⟨d, ds ++ more, rfl, h.2 d List.mem_cons_self⟩,
    List.nil_append]

theorem namesFrom_exponent (h : IsExponent cs) (hds : AreDigits ds) :
    namesFrom dotted [] (ds ++ cs ++ ',' :: rest) = namesFrom false [] rest := by
  obtain ⟨sign, es, hsign, hes, rfl⟩ := h
  have hlist : ds ++ 'e' :: sign :: es ++ ',' :: rest =
      ds ++ ['e'] ++ sign :: (es ++ [] ++ ',' :: rest) := by simp
  have hends : isNameEnd sign = true ∧ sign ≠ '=' ∧ (sign == '.') = false := by
    rcases hsign with rfl | rfl <;> decide
  have he : ∀ c ∈ ['e'], isNameEnd c = false := List.forall_mem_singleton.mpr (by decide)
  rw [hlist, namesFrom_digits hds he hends.1 hends.2.1, hends.2.2,
    namesFrom_digits hes (by simp) (by decide) (by decide)]
  rfl

/-- A number evaluates nothing, however it is laid out. -/
theorem namesFrom_fraction (h : IsFraction cs) :
    namesFrom false [] (cs ++ ',' :: rest) = namesFrom false [] rest := by
  cases h with
  | @pointed whole fraction hwhole hfraction =>
      have hlist : whole ++ '.' :: fraction ++ ',' :: rest =
          whole ++ [] ++ '.' :: (fraction ++ [] ++ ',' :: rest) := by simp
      rw [hlist, namesFrom_digits hwhole (by simp) (by decide) (by decide),
        namesFrom_digits hfraction (by simp) (by decide) (by decide)]
      rfl
  | scaled hwhole hexponent => exact namesFrom_exponent hexponent hwhole
  | @pointedScaled whole fraction exponent hwhole hfraction hexponent =>
      have hlist : whole ++ '.' :: fraction ++ exponent ++ ',' :: rest =
          whole ++ [] ++ '.' :: (fraction ++ exponent ++ ',' :: rest) := by simp
      rw [hlist, namesFrom_digits hwhole (by simp) (by decide) (by decide),
        namesFrom_exponent hexponent hfraction]

end Expressions

section Literals

variable {rest : List Char} {x : Binary64} {texts : List String} {i : Int} {d : Default}

/-- Whether a default is written as a call, being no finite number. -/
def isCalled : Default → Bool
  | .float x => !x.isFinite
  | _ => false

theorem skeletonFrom_code_texts (hrest : rest.head? ≠ some '"') :
    ∃ signs, (∀ c ∈ signs, isNameEnd c = true ∧ c ≠ '.' ∧ c ≠ '=') ∧
      skeletonFrom .code ((", ".intercalate (texts.map Escaped.ascii)).toList ++ rest) =
        signs ++ skeletonFrom .code rest := by
  induction texts with
  | nil => exact ⟨[], by simp, rfl⟩
  | cons text more ih =>
      obtain ⟨signs, hsigns, hmore⟩ := ih
      have hquote : isNameEnd '"' = true ∧ '"' ≠ '.' ∧ '"' ≠ '=' := by decide
      cases more with
      | nil =>
          refine ⟨['"', '"'], by simp [hquote], ?_⟩
          rw [List.map_singleton, String.intercalate_singleton, skeletonFrom_code_ascii hrest]
          rfl
      | cons next more =>
          have hcomma : isNameEnd ',' = true ∧ ',' ≠ '.' ∧ ',' ≠ '=' := by decide
          have hspace : isNameEnd ' ' = true ∧ ' ' ≠ '.' ∧ ' ' ≠ '=' := by decide
          refine ⟨'"' :: '"' :: ',' :: ' ' :: signs, ?_, ?_⟩
          · simp only [List.forall_mem_cons]
            exact ⟨hquote, hquote, hcomma, hspace, hsigns⟩
          · rw [List.map_cons] at hmore
            rw [List.map_cons, List.map_cons, String.intercalate_cons_cons, String.toList_append,
              String.toList_append, List.append_assoc, List.append_assoc,
              skeletonFrom_code_ascii (by simp), skeletonFrom_code_bare (by decide), hmore]
            rfl

theorem namesFrom_minus : namesFrom false [] ('-' :: rest) = namesFrom false [] rest := by
  rfl

theorem namesFrom_integer :
    namesFrom false [] ((toString i).toList ++ ',' :: rest) = namesFrom false [] rest := by
  have hdigits : ∀ n : Nat, namesFrom false [] (n.repr.toList ++ ',' :: rest) =
      namesFrom false [] rest := by
    intro n
    have hnumber : namesFrom false [] (n.repr.toList ++ [] ++ ',' :: rest) =
        namesFrom false [] rest :=
      namesFrom_digits (areDigits_repr n) (by simp) (by decide) (by decide)
    rwa [List.append_nil] at hnumber
  cases i with
  | ofNat n => exact hdigits n
  | negSucc n =>
      have hsign : (toString (Int.negSucc n)).toList = '-' :: (n + 1).repr.toList :=
        String.toList_append
      rw [hsign, List.cons_append, namesFrom_minus, hdigits]

theorem namesFrom_text (hx : x.isFinite = true) :
    namesFrom false [] (x.text.toList ++ ',' :: rest) = namesFrom false [] rest := by
  obtain ⟨cs, hcs, htext | htext⟩ := isFraction_text hx
  · rw [htext, namesFrom_fraction hcs]
  · rw [htext, List.cons_append, namesFrom_minus, namesFrom_fraction hcs]

theorem namesFrom_floatLiteral : namesFrom false []
    (skeletonFrom .code ((floatLiteral x).toList ++ ',' :: rest)) =
      (if x.isFinite then [] else ["float"]) ++ namesFrom false [] (skeletonFrom .code rest) := by
  have hcall : ∀ s, namesFrom false []
      (skeletonFrom .code (("float(" ++ Escaped.ascii s ++ ")").toList ++ ',' :: rest)) =
        "float" :: namesFrom false [] (skeletonFrom .code rest) := by
    intro s
    have hopen : IsBare "float(" := by decide
    have hclose : ∀ r, skeletonFrom .code (')' :: ',' :: r) = ')' :: ',' :: skeletonFrom .code r :=
      @skeletonFrom_code_bare ")," (by decide)
    have hlist : ("float(" ++ Escaped.ascii s ++ ")").toList ++ ',' :: rest =
        "float(".toList ++ ((Escaped.ascii s).toList ++ ')' :: ',' :: rest) := by
      simp
    rw [hlist, skeletonFrom_code_bare hopen, skeletonFrom_code_ascii (by simp), hclose]
    rfl
  by_cases hx : x.isFinite = true
  · rw [floatLiteral, if_pos hx, if_pos hx, skeletonFrom_code_bare (areNumeral_text hx).isBare,
      skeletonFrom_code_cons (by decide), namesFrom_text hx, List.nil_append]
  · rw [floatLiteral_of_not_finite hx, if_neg hx, hcall x.text, List.singleton_append]

theorem namesFrom_tupleLiteral : namesFrom false []
    (skeletonFrom .code ((tupleLiteral texts).toList ++ ',' :: rest)) =
      namesFrom false [] (skeletonFrom .code rest) := by
  rw [tupleLiteral.eq_def]
  split
  · rename_i text
    have hlist : ("(" ++ Escaped.ascii text ++ ",)").toList ++ ',' :: rest =
        '(' :: ((Escaped.ascii text).toList ++ ',' :: ')' :: ',' :: rest) := by
      simp
    have hclose : ∀ r, skeletonFrom .code (',' :: ')' :: ',' :: r) =
        ',' :: ')' :: ',' :: skeletonFrom .code r :=
      @skeletonFrom_code_bare ",)," (by decide)
    rw [hlist, skeletonFrom_code_cons (by decide), skeletonFrom_code_ascii (by simp), hclose]
    rfl
  · have hlist : ("(" ++ ", ".intercalate (texts.map Escaped.ascii) ++ ")").toList ++ ',' :: rest =
        '(' :: ((", ".intercalate (texts.map Escaped.ascii)).toList ++ ')' :: ',' :: rest) := by
      simp
    have hclose : ∀ r, skeletonFrom .code (')' :: ',' :: r) = ')' :: ',' :: skeletonFrom .code r :=
      @skeletonFrom_code_bare ")," (by decide)
    obtain ⟨signs, hsigns, hskeleton⟩ :=
      @skeletonFrom_code_texts (')' :: ',' :: rest) texts (by simp)
    have hnames := @namesFrom_append_signs ('(' :: signs) (')' :: ',' :: skeletonFrom .code rest)
      (List.forall_mem_cons.mpr ⟨by decide, fun c hc => ⟨(hsigns c hc).1, (hsigns c hc).2.1⟩⟩)
    rw [hlist, skeletonFrom_code_cons (by decide), hskeleton, hclose, ← List.cons_append, hnames]
    rfl

/-- A default evaluates nothing unless it is written as a call. -/
theorem namesFrom_literal : namesFrom false []
    (skeletonFrom .code ((literal d).toList ++ ',' :: rest)) =
      (if isCalled d then ["float"] else []) ++ namesFrom false [] (skeletonFrom .code rest) := by
  have hcomma : ∀ r, skeletonFrom .code (',' :: r) = ',' :: skeletonFrom .code r :=
    fun r => skeletonFrom_code_cons (by decide)
  cases d with
  | text s =>
      rw [literal, skeletonFrom_code_ascii (by simp), hcomma]
      rfl
  | flag b =>
      have hflag : IsBare (boolLiteral b) := by cases b <;> decide
      rw [literal, skeletonFrom_code_bare hflag, hcomma]
      cases b <;> rfl
  | integer i =>
      rw [literal, skeletonFrom_code_bare (areNumeral_toString i).isBare, hcomma, namesFrom_integer]
      rfl
  | float x =>
      rw [literal, namesFrom_floatLiteral]
      cases hx : x.isFinite <;> simp [isCalled, hx]
  | list texts => exact namesFrom_tupleLiteral

end Literals

end EndpointBindings.Emission
