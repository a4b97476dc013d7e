import EndpointBindings.Proofs.Identifiers

/-!
Canonical identifiers: the texts that are identifiers of names. They are told by where their
underscores stand, and each is its own identifier, so taking the identifier of a name twice is the
same as taking it once.
-/

namespace EndpointBindings.Naming

open EndpointBindings.Text

/-- Characters of which no two underscores stand side by side. -/
def AreSingle (cs : List Char) : Prop := cs.IsChain fun a b => a ≠ '_' ∨ b ≠ '_'

/-- An identifier in lower case with underscores only between two words, in front of a digit that
would start it, and behind a word of the language. -/
structure IsCanonical (name : String) : Prop where
  lower : IsLowerIdentifier name
  single : AreSingle name.toList
  leading : ∀ rest, name.toList = '_' :: rest → ∃ d ∈ rest.head?, d.isDigit = true
  trailing : ∀ before, name.toList = before ++ ['_'] → String.ofList before ∈ keywords

section Words

variable {c d : Char} {cs w : List Char} {ws : List (List Char)}

theorem wordsOf_underscore : wordsOf ('_' :: cs) = wordsOf cs := runs_cons_of_separates rfl

theorem wordsOf_cons_ne_nil (hc : c ≠ '_') : wordsOf (c :: cs) ≠ [] :=
  runs_cons_ne_nil (by simpa using hc)

theorem wordsOf_cons_cons (hc : c ≠ '_') :
    wordsOf (c :: d :: cs) = consWord c (d != '_') (wordsOf (d :: cs)) :=
  runs_cons (by simpa using hc)

theorem wordsOf_append_underscore : wordsOf (cs ++ ['_']) = wordsOf cs := by
  induction cs with
  | nil => rfl
  | cons c rest ih =>
      by_cases hc : c = '_'
      · subst hc
        rw [List.cons_append, wordsOf_underscore, wordsOf_underscore, ih]
      · cases rest with
        | nil => simp [wordsOf, runs, hc, consWord]
        | cons d more =>
            rw [List.cons_append, List.cons_append, wordsOf_cons_cons hc, wordsOf_cons_cons hc,
              ← List.cons_append, ih]

theorem joinWords_wordsOf_break (hc : c ≠ '_') (hd : d ≠ '_') :
    joinWords (wordsOf (c :: '_' :: d :: cs)) = c :: '_' :: joinWords (wordsOf (d :: cs)) := by
  obtain ⟨w, ws, hw⟩ := List.exists_cons_of_ne_nil (wordsOf_cons_ne_nil hd)
  rw [wordsOf_cons_cons hc, wordsOf_underscore, bne_self_eq_false, hw]
  rfl

theorem joinWords_wordsOf_cons (hc : c ≠ '_') (hd : d ≠ '_') :
    joinWords (wordsOf (c :: d :: cs)) = c :: joinWords (wordsOf (d :: cs)) := by
  obtain ⟨w, ws, hw⟩ := List.exists_cons_of_ne_nil (wordsOf_cons_ne_nil hd)
  rw [wordsOf_cons_cons hc, bne_iff_ne.mpr hd, hw]
  cases ws <;> rfl

/-- The words of a text, joined again, are the text from its first word on. -/
theorem joinWords_wordsOf (hsingle : AreSingle cs) (hlast : cs.getLast? ≠ some '_') :
    joinWords (wordsOf cs) = cs.dropWhile (· = '_') := by
  have hskip : ∀ r : List Char, ('_' :: r).dropWhile (· = '_') = r.dropWhile (· = '_') :=
    fun r => List.dropWhile_cons_of_pos (by simp)
  have hstay : ∀ {e} (r : List Char), e ≠ '_' → (e :: r).dropWhile (· = '_') = e :: r :=
    fun r he => List.dropWhile_cons_of_neg (by simpa using he)
  induction cs with
  | nil => rfl
  | cons c rest ih =>
      by_cases hc : c = '_'
      · subst hc
        cases rest with
        | nil => simp at hlast
        | cons d more => rw [wordsOf_underscore, hskip, ih hsingle.tail (by simpa using hlast)]
      · rw [hstay rest hc]
        cases rest with
        | nil => simp [wordsOf, runs, hc, consWord, joinWords]
        | cons d more =>
            have hmore := ih hsingle.tail (by simpa using hlast)
            by_cases hd : d = '_'
            · subst hd
              -- An underscore that is neither the last nor one of two is followed by a word.
              cases more with
              | nil => simp at hlast
              | cons e tail =>
                  have he : e ≠ '_' := by simpa using hsingle.tail.rel
                  rw [wordsOf_underscore, hskip, hstay tail he] at hmore
                  rw [joinWords_wordsOf_break hc he, hmore]
            · rw [hstay more hd] at hmore
              rw [joinWords_wordsOf_cons hc hd, hmore]

theorem areSingle_of_notMem (h : '_' ∉ cs) : AreSingle cs := by
  have hall : ∀ a ∈ cs, ∀ b ∈ cs, a ≠ '_' ∨ b ≠ '_' := fun a ha b _ =>
    .inl (ne_of_mem_of_not_mem ha h)
  exact List.Pairwise.isChain (List.pairwise_of_forall_mem_list hall)

theorem head?_ne_underscore (h : '_' ∉ cs) : cs.head? ≠ some '_' :=
  fun hhead => h (List.mem_of_mem_head? hhead)

theorem getLast?_ne_underscore (h : '_' ∉ cs) : cs.getLast? ≠ some '_' :=
  fun hlast => h (List.mem_of_mem_getLast? hlast)

/-- Words that are joined have underscores between them only. -/
theorem areSingle_joinWords (h : ∀ w ∈ ws, w ≠ [] ∧ '_' ∉ w) : AreSingle (joinWords ws) ∧
    (joinWords ws).head? ≠ some '_' ∧ (joinWords ws).getLast? ≠ some '_' := by
  fun_induction joinWords ws with
  | case1 => exact ⟨.nil, by simp, by simp⟩
  | case2 w =>
      obtain ⟨-, hw⟩ := h w List.mem_cons_self
      exact ⟨areSingle_of_notMem hw, head?_ne_underscore hw, getLast?_ne_underscore hw⟩
  | case3 w ws hws ih =>
      obtain ⟨⟨hne, hw⟩, hrest⟩ := List.forall_mem_cons.mp h
      obtain ⟨hsingle, hhead, hlast⟩ := ih hrest
      obtain ⟨c, rest, hjoin, -⟩ := exists_joinWords_eq (fun hnil => (hrest _ hnil).1 rfl) hws
      rw [hjoin] at hsingle hhead hlast ⊢
      have hc : c ≠ '_' := by simpa using hhead
      refine ⟨(areSingle_of_notMem hw).append (.cons_cons (.inr hc) hsingle) ?_, ?_, ?_⟩
      · exact fun a ha b _ => .inl (ne_of_mem_of_not_mem (List.mem_of_mem_getLast? ha) hw)
      · rw [List.head?_append_of_ne_nil _ hne]
        exact head?_ne_underscore hw
      · simpa using hlast

end Words

section Guards

variable {cs rest : List Char} {name : String}

theorem keyword_notMem_underscore :
    ∀ keyword ∈ keywords, keyword.toList ≠ [] ∧ '_' ∉ keyword.toList := by
  decide

theorem areSingle_guardDigit (hsingle : AreSingle cs) (hhead : cs.head? ≠ some '_') :
    AreSingle (guardDigit cs) := by
  unfold guardDigit
  split
  · split
    · exact .cons_cons (.inr (by simpa using hhead)) hsingle
    · exact hsingle
  · exact .nil

theorem getLast?_guardDigit : (guardDigit cs).getLast? = cs.getLast? := by
  unfold guardDigit
  split
  · split
    · exact List.getLast?_cons_cons
    · rfl
  · rfl

theorem isDigit_of_guardDigit_eq (h : guardDigit cs = '_' :: rest) (hhead : cs.head? ≠ some '_') :
    ∃ d ∈ rest.head?, d.isDigit = true := by
  unfold guardDigit at h
  split at h
  · rename_i c more
    split at h
    · rename_i hdigit
      obtain rfl := (List.cons.inj h).2
      exact ⟨c, rfl, hdigit⟩
    · obtain rfl := (List.cons.inj h).1
      exact absurd rfl hhead
  · cases h

/-- The identifier of a name is canonical. -/
theorem isCanonical_identifier (name : String) : IsCanonical (identifier name) := by
  have hwords : ∀ w ∈ identifierWords name, w ≠ [] ∧ '_' ∉ w := fun w hw =>
    ⟨(of_mem_identifierWords hw).1, (of_mem_identifierWords hw).2.1⟩
  obtain ⟨hsingle, hhead, hlast⟩ := areSingle_joinWords hwords
  rw [← getLast?_guardDigit] at hlast
  have hguarded := areSingle_guardDigit hsingle hhead
  constructor
  case lower => exact isLowerIdentifier_identifier name
  case single =>
    rw [toList_identifier, guardKeyword]
    split
    · exact hguarded.append (.singleton _) fun a ha b _ => .inl (by rintro rfl; exact hlast ha)
    · exact hguarded
  case leading =>
    intro rest hrest
    rw [toList_identifier, guardKeyword] at hrest
    split at hrest
    · rename_i hkeyword
      obtain ⟨hne, hunderscore⟩ := keyword_notMem_underscore _ hkeyword
      rw [String.toList_ofList] at hne hunderscore
      obtain ⟨c, more, hc⟩ := List.exists_cons_of_ne_nil hne
      rw [hc] at hrest hunderscore
      obtain rfl := (List.cons.inj hrest).1
      exact absurd List.mem_cons_self hunderscore
    · exact isDigit_of_guardDigit_eq hrest hhead
  case trailing =>
    intro before hbefore
    rw [toList_identifier, guardKeyword] at hbefore
    split at hbefore
    · rename_i hkeyword
      rwa [← List.append_cancel_right hbefore]
    · rw [hbefore] at hlast
      simp at hlast

end Guards

section FixedPoints

variable {c : Char} {cs : List Char} {name : String}

theorem not_isUpper_of_isLowerNameChar (h : IsLowerNameChar c) : ¬c.isUpper = true := by
  intro hupper
  rcases h with h | h | rfl
  · exact Char.not_isUpper_of_isLower h hupper
  · have halpha : c.isAlpha = true := by simp [Char.isAlpha, hupper]
    simp [isDigit_of_isAlpha halpha] at h
  · exact absurd hupper (by decide)

theorem splitCapitals_eq_self (h : ∀ c ∈ cs, IsLowerNameChar c) : splitCapitals cs = cs := by
  induction cs with
  | nil => rfl
  | cons c rest ih =>
      obtain ⟨-, hrest⟩ := List.forall_mem_cons.mp h
      have hstart : isWordStart c rest = false := by
        cases rest with
        | nil => rfl
        | cons d more =>
            have hd := not_isUpper_of_isLowerNameChar (hrest d List.mem_cons_self)
            simp [isWordStart, hd]
      rw [splitCapitals, hstart, ih hrest]
      rfl

theorem plainChar_eq_singleton (h : IsLowerNameChar c) : plainChar c = [c] := by
  rcases isNameChar_of_isLowerNameChar h with halphanum | rfl
  · rw [plainChar, if_pos halphanum,
      Char.toLower_eq_of_not_isUpper (not_isUpper_of_isLowerNameChar h)]
  · decide

/-- A name in lower case is taken apart at its underscores only. -/
theorem nameWords_eq_wordsOf (h : IsLowerIdentifier name) :
    nameWords name = wordsOf name.toList := by
  have hplain : name.toList.flatMap plainChar = name.toList.flatMap fun c => [c] :=
    List.flatMap_congr fun c hc => plainChar_eq_singleton (h.chars c hc)
  rw [nameWords, splitCapitals_eq_self h.chars, hplain, List.flatMap_singleton']

/-- The underscore in front of a digit is put back. -/
theorem IsCanonical.guardDigit_eq (h : IsCanonical name) : wordsOf name.toList ≠ [] ∧
    guardDigit (name.toList.dropWhile (· = '_')) = name.toList := by
  obtain ⟨c, rest, hname, hc⟩ := h.lower.start
  by_cases hunderscore : c = '_'
  · subst hunderscore
    obtain ⟨d, hd, hdigit⟩ := h.leading rest hname
    obtain ⟨more, rfl⟩ := List.head?_eq_some_iff.mp hd
    have hne : d ≠ '_' := by
      rintro rfl
      exact absurd hdigit (by decide)
    rw [hname, wordsOf_underscore, List.dropWhile_cons_of_pos (by simp),
      List.dropWhile_cons_of_neg (by simpa using hne)]
    exact ⟨wordsOf_cons_ne_nil hne, if_pos hdigit⟩
  · have hdigit : c.isDigit = false :=
      isDigit_of_isAlpha (by simp [Char.isAlpha, hc.resolve_right hunderscore])
    rw [hname, List.dropWhile_cons_of_neg (by simpa using hunderscore)]
    exact ⟨wordsOf_cons_ne_nil hunderscore, if_neg (by simp [hdigit])⟩

theorem IsCanonical.identifier_eq (h : IsCanonical name) : identifier name = name := by
  have hguards : ∀ {ws}, nameWords name = ws → ws ≠ [] →
      guardKeyword (guardDigit (joinWords ws)) = name.toList → identifier name = name := by
    rintro ws rfl hne hguards
    rw [← String.toList_inj, toList_identifier, identifierWords, if_neg (by simpa using hne),
      hguards]
  have hwords := nameWords_eq_wordsOf h.lower
  by_cases hlast : name.toList.getLast? = some '_'
  · -- What stands before the last underscore is a word of the language, which has no other.
    obtain ⟨before, hbefore⟩ := List.getLast?_eq_some_iff.mp hlast
    have hmem := h.trailing before hbefore
    have hown : ∀ keyword ∈ keywords, wordsOf keyword.toList = [keyword.toList] ∧
        guardDigit keyword.toList = keyword.toList := by decide +kernel
    obtain ⟨hone, hdigit⟩ := hown _ hmem
    rw [String.toList_ofList] at hone hdigit
    rw [hbefore, wordsOf_append_underscore, hone] at hwords
    refine hguards hwords (List.cons_ne_nil _ _) ?_
    rw [joinWords, hdigit, guardKeyword, if_pos hmem, hbefore]
  · obtain ⟨hne, hdigit⟩ := h.guardDigit_eq
    refine hguards hwords hne ?_
    rw [joinWords_wordsOf h.single hlast, hdigit, guardKeyword, String.ofList_toList,
      if_neg h.lower.notKeyword]

/-- The identifier of a name is one in lower case that is no word of the language and has no two
underscores side by side. It is its own identifier, as the canonical identifiers are and no other
name is. -/
theorem identifier_fixed_iff_canonical (name : String) : IsLowerIdentifier (identifier name) ∧
    ¬['_', '_'] <:+: (identifier name).toList ∧ identifier (identifier name) = identifier name ∧
    (identifier name = name ↔ IsCanonical name) := by
  have hcanonical := isCanonical_identifier name
  refine ⟨hcanonical.lower, fun hpair => ?_, hcanonical.identifier_eq, fun hfixed => ?_,
    IsCanonical.identifier_eq⟩
  · have hchain : AreSingle ['_', '_'] := List.IsChain.infix hcanonical.single hpair
    simp [AreSingle] at hchain
  · rw [← hfixed]
    exact hcanonical

end FixedPoints

end EndpointBindings.Naming
