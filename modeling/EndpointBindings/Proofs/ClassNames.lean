import EndpointBindings.Proofs.BindingOrder
import EndpointBindings.Proofs.Identifiers
import EndpointBindings.Proofs.PlainText

/-!
Names of classes. The words of an identifier lose what stands between them and in front of them,
so the name of a class starts with the first letter or digit of the endpoint's name. It is an
identifier unless that is a digit, and no keyword either way.
-/

namespace EndpointBindings.Naming

open EndpointBindings.Text

section Words

variable {c d : Char} {cs w : List Char} {ws : List (List Char)} {name : String}

theorem flatten_wordsOf : (wordsOf cs).flatten = cs.filter (· ≠ '_') := by
  rw [wordsOf, flatten_runs]
  exact List.filter_congr fun c _ => decide_not.symm

theorem filter_joinWords (h : ∀ w ∈ ws, '_' ∉ w) :
    (joinWords ws).filter (· ≠ '_') = ws.flatten := by
  have hword : ∀ w : List Char, '_' ∉ w → w.filter (· ≠ '_') = w := by
    intro w hw
    apply List.filter_eq_self.mpr
    intro c hc
    simpa using ne_of_mem_of_not_mem hc hw
  fun_induction joinWords ws with
  | case1 => rfl
  | case2 w => rw [hword w (h w List.mem_cons_self), List.flatten_singleton]
  | case3 w ws _ ih =>
      obtain ⟨hw, hws⟩ := List.forall_mem_cons.mp h
      rw [List.filter_append, List.filter_cons_of_neg (by simp), hword w hw, ih hws,
        List.flatten_cons]

theorem filter_guardDigit : (guardDigit cs).filter (· ≠ '_') = cs.filter (· ≠ '_') := by
  unfold guardDigit
  split
  · split
    · exact List.filter_cons_of_neg (by simp)
    · rfl
  · rfl

theorem filter_guardKeyword : (guardKeyword cs).filter (· ≠ '_') = cs.filter (· ≠ '_') := by
  unfold guardKeyword
  split
  · simp
  · rfl

/-- The words of an identifier, taken apart, are those that it was made of. -/
theorem flatten_wordsOf_identifier :
    (wordsOf (identifier name).toList).flatten = (identifierWords name).flatten := by
  rw [flatten_wordsOf, toList_identifier, filter_guardKeyword, filter_guardDigit,
    filter_joinWords fun w hw => (of_mem_identifierWords hw).2.1]

/-- Whether a character leaves a letter or a digit in an identifier. -/
def isWordChar (c : Char) : Bool := plainChar c ≠ ['_']

theorem isDigit_toLower : c.toLower.isDigit = c.isDigit := by
  by_cases h : c.isAlpha = true
  · have hlower : c.toLower.isAlpha = true := by rwa [Char.isAlpha_toLower_eq_isAlpha]
    rw [isDigit_of_isAlpha h, isDigit_of_isAlpha hlower]
  · rw [Char.toLower_eq_of_not_isUpper fun hupper => h (by simp [Char.isAlpha, hupper])]

theorem exists_plainChar_eq (h : isWordChar c = true) :
    ∃ d rest, plainChar c = d :: rest ∧ d ≠ '_' ∧ d.isDigit = c.isDigit := by
  by_cases halphanum : c.isAlphanum = true
  · refine ⟨c.toLower, [], by rw [plainChar, if_pos halphanum], ?_, isDigit_toLower⟩
    intro heq
    exact absurd (isAlphanum_toLower halphanum) (by rw [heq]; decide)
  · by_cases hkelvin : c = '\u212a'
    · subst hkelvin
      exact ⟨'k', [], by decide, by decide, by decide⟩
    · by_cases hdotted : c = '\u0130'
      · subst hdotted
        exact ⟨'i', ['_'], by decide, by decide, by decide⟩
      · simp [isWordChar, plainChar, halphanum, hkelvin, hdotted] at h

theorem filter_splitCapitals : ((splitCapitals cs).flatMap plainChar).filter (· ≠ '_') =
    (cs.flatMap plainChar).filter (· ≠ '_') := by
  have hunderscore : (plainChar '_').filter (· ≠ '_') = [] := by decide
  fun_induction splitCapitals cs with
  | case1 => rfl
  | case2 c rest _ ih =>
      simp only [List.flatMap_cons, List.filter_append, hunderscore, ih, List.nil_append]
  | case3 c rest _ ih => simp only [List.flatMap_cons, List.filter_append, ih]

theorem head?_filter_plain : ((cs.flatMap plainChar).filter (· ≠ '_')).head? =
    (cs.find? isWordChar).bind fun c => (plainChar c).head? := by
  induction cs with
  | nil => rfl
  | cons c rest ih =>
      rw [List.flatMap_cons, List.filter_append]
      by_cases hc : isWordChar c = true
      · obtain ⟨d, more, hd, hne, -⟩ := exists_plainChar_eq hc
        simp [hc, hd, hne]
      · have hplain : plainChar c = ['_'] := by simpa [isWordChar] using hc
        simp only [hplain, List.find?_cons, hc]
        simpa using ih

/-- The first letter or digit of an identifier is that of the name; a name without one is called
by a word. -/
theorem isDigit_identifierWords (h : (identifierWords name).flatten.head? = some d) :
    d.isDigit = true ↔ ∃ c, name.toList.find? isWordChar = some c ∧ c.isDigit = true := by
  have hplain : (nameWords name).flatten.head? =
      (name.toList.find? isWordChar).bind fun c => (plainChar c).head? := by
    rw [nameWords, flatten_wordsOf, filter_splitCapitals, head?_filter_plain]
  rw [identifierWords] at h
  cases hfind : name.toList.find? isWordChar with
  | none =>
      have hflatten : (nameWords name).flatten = [] := by
        rw [← List.head?_eq_none_iff, hplain, hfind, Option.bind_none]
      have hwords : nameWords name = [] := by
        rw [List.eq_nil_iff_forall_not_mem]
        intro w hw
        exact (wordsOf_ne_nil hw).1 (List.flatten_eq_nil_iff.mp hflatten w hw)
      rw [hwords] at h
      obtain rfl : 'p' = d := Option.some.inj h
      simp
  | some c =>
      obtain ⟨e, rest, he, -, hdigit⟩ := exists_plainChar_eq (List.find?_some hfind)
      have hhead : (nameWords name).flatten.head? = some e := by
        rw [hplain, hfind, Option.bind_some, he, List.head?_cons]
      rw [if_neg (by rintro hnil; simp [List.isEmpty_iff.mp hnil] at hhead), hhead] at h
      obtain rfl := Option.some.inj h
      simp [hdigit]

/-- The characters of the words of a name, put together, in capitals where words start. -/
theorem toList_className : (className name).toList =
    (wordsOf (identifier name).toList).flatMap capitalise ++ "Params".toList := by
  rw [className, String.toList_append, String.toList_ofList]

theorem head?_flatMap_capitalise (h : [] ∉ ws) :
    (ws.flatMap capitalise).head? = ws.flatten.head?.map Char.toUpper := by
  cases ws with
  | nil => rfl
  | cons w ws =>
      obtain ⟨c, rest, rfl⟩ := List.exists_cons_of_ne_nil (List.ne_of_not_mem_cons h).symm
      rfl

theorem exists_className_eq : ∃ d rest, (identifierWords name).flatten.head? = some d ∧
    (className name).toList = d.toUpper :: rest ∧ (d.isLower = true ∨ d.isDigit = true) := by
  have hwords : [] ∉ identifierWords name := fun hnil => (of_mem_identifierWords hnil).1 rfl
  obtain ⟨w, ws, hws⟩ := List.exists_cons_of_ne_nil (@identifierWords_ne_nil name)
  have hmem : w ∈ identifierWords name := by rw [hws]; exact List.mem_cons_self
  obtain ⟨hne, hunderscore, hchars⟩ := of_mem_identifierWords hmem
  obtain ⟨d, more, rfl⟩ := List.exists_cons_of_ne_nil hne
  have hhead : (identifierWords name).flatten.head? = some d := by rw [hws]; rfl
  have hcapital : ((wordsOf (identifier name).toList).flatMap capitalise).head? =
      some d.toUpper := by
    rw [head?_flatMap_capitalise fun hnil => (wordsOf_ne_nil hnil).1 rfl,
      flatten_wordsOf_identifier, hhead, Option.map_some]
  obtain ⟨rest, hrest⟩ := List.head?_eq_some_iff.mp hcapital
  refine ⟨d, rest ++ "Params".toList, hhead, by rw [toList_className, hrest]; rfl, ?_⟩
  rcases hchars d List.mem_cons_self with h | h | rfl
  · exact .inl h
  · exact .inr h
  · exact absurd List.mem_cons_self hunderscore

theorem className_notKeyword : className name ∉ keywords := by
  intro hmem
  have hkeywords : ∀ keyword ∈ keywords, ¬"Params".toList <:+ keyword.toList := by decide
  apply hkeywords _ hmem
  rw [toList_className]
  exact List.suffix_append _ _

/-- The name of a class is an identifier unless the first letter or digit of the endpoint's name is
a digit. -/
theorem className_isIdentifier_iff : IsIdentifier (className name) ↔
    ∀ c, name.toList.find? isWordChar = some c → c.isDigit = false := by
  obtain ⟨d, rest, hhead, hclass, hd⟩ := @exists_className_eq name
  have hdigit := isDigit_identifierWords hhead
  constructor
  · rintro ⟨⟨c, more, hmore, hc⟩, -, -⟩ e he
    obtain ⟨rfl, -⟩ := List.cons.inj (hclass.symm.trans hmore)
    by_contra heDigit
    have hdDigit : d.isDigit = true := hdigit.mpr ⟨e, he, by simpa using heDigit⟩
    have hlower : ¬d.isLower = true := fun hlower => by
      simp [isDigit_of_isAlpha (c := d) (by simp [Char.isAlpha, hlower])] at hdDigit
    rw [Char.toUpper_eq_of_not_isLower hlower] at hc
    rcases hc with hc | rfl
    · simp [isDigit_of_isAlpha hc] at hdDigit
    · exact absurd hdDigit (by decide)
  · intro h
    have hlower : d.isLower = true := hd.resolve_right fun hdDigit => by
      obtain ⟨c, hc, hcDigit⟩ := hdigit.mp hdDigit
      simp [h c hc] at hcDigit
    refine ⟨⟨_, rest, hclass, .inl ?_⟩, Emission.isNameText_className, className_notKeyword⟩
    rw [Char.isAlpha_toUpper_eq_isAlpha, Char.isAlpha, hlower, Bool.or_true]

theorem underscore_notMem_className : '_' ∉ (className name).toList := by
  rw [toList_className, List.mem_append, not_or]
  refine ⟨fun hmem => ?_, by decide⟩
  obtain ⟨w, hw, hmem⟩ := List.mem_flatMap.mp hmem
  obtain ⟨hne, hunderscore⟩ := wordsOf_ne_nil hw
  obtain ⟨c, rest, rfl⟩ := List.exists_cons_of_ne_nil hne
  rcases List.mem_cons.mp hmem with h | h
  · by_cases hlower : c.isLower = true
    · have halpha : c.toUpper.isAlpha = true := by
        rw [Char.isAlpha_toUpper_eq_isAlpha, Char.isAlpha, hlower, Bool.or_true]
      exact absurd halpha (by rw [← h]; decide)
    · rw [Char.toUpper_eq_of_not_isLower hlower] at h
      exact hunderscore (h ▸ List.mem_cons_self)
  · exact hunderscore (List.mem_cons_of_mem _ h)

theorem StartsWith.ne_className {verb : Verb} (h : StartsWith verb name) {endpoint : String} :
    className endpoint ≠ name := by
  rintro rfl
  obtain ⟨tail, htail, -, hstart⟩ := h
  rcases hstart with rfl | ⟨rest, rfl⟩
  · have hword : ¬"Params".toList <:+ verb.word.toList := by cases verb <;> decide
    rw [List.append_nil] at htail
    apply hword
    rw [← htail, toList_className]
    exact List.suffix_append _ _
  · apply underscore_notMem_className
    rw [htail]
    simp

end Words

end EndpointBindings.Naming
