import EndpointBindings.Proofs.FunctionNames

/-!
Identifiers of names. Whatever characters a name has, its identifier is in lower case, does not
begin with a digit and is no keyword, and it stays so when underscores make it differ from others.
-/

namespace EndpointBindings.Naming

open EndpointBindings.Text

/-- The characters of identifiers in lower case. -/
def IsLowerNameChar (c : Char) : Prop := c.isLower = true ∨ c.isDigit = true ∨ c = '_'

instance (c : Char) : Decidable (IsLowerNameChar c) :=
  inferInstanceAs (Decidable (c.isLower = true ∨ c.isDigit = true ∨ c = '_'))

/-- An identifier of Python source in lower case. -/
structure IsLowerIdentifier (name : String) : Prop where
  start : ∃ c rest, name.toList = c :: rest ∧ (c.isLower = true ∨ c = '_')
  chars : ∀ c ∈ name.toList, IsLowerNameChar c
  notKeyword : name ∉ keywords

section Characters

variable {c d : Char} {cs w : List Char} {ws : List (List Char)} {name : String}

theorem isDigit_of_isAlpha (h : c.isAlpha = true) : c.isDigit = false := by
  simp [Char.isAlpha, Char.isUpper, Char.isLower, Char.isDigit, UInt32.le_iff_toNat_le] at h ⊢
  omega

theorem isNameChar_of_isLowerNameChar (h : IsLowerNameChar c) : IsNameChar c := by
  rcases h with h | h | h
  · exact .inl (by simp [Char.isAlphanum, Char.isAlpha, h])
  · exact .inl (by simp [Char.isAlphanum, h])
  · exact .inr h

theorem IsLowerIdentifier.isIdentifier (h : IsLowerIdentifier name) : IsIdentifier name := by
  obtain ⟨⟨c, rest, hname, hc⟩, hchars, hkeyword⟩ := h
  refine ⟨⟨c, rest, hname, ?_⟩, fun d hd => isNameChar_of_isLowerNameChar (hchars d hd), hkeyword⟩
  rcases hc with hc | hc
  · exact .inl (by simp [Char.isAlpha, hc])
  · exact .inr hc

theorem isLowerNameChar_plainChar (h : d ∈ plainChar c) : IsLowerNameChar d := by
  unfold plainChar at h
  split at h
  · rename_i halphanum
    obtain rfl := List.mem_singleton.mp h
    by_cases halpha : c.isAlpha = true
    · exact .inl (by rw [Char.isLower_toLower_eq_isAlpha, halpha])
    · have hdigit : c.isDigit = true := by simpa [Char.isAlphanum, halpha] using halphanum
      have hupper : ¬c.isUpper = true := fun hupper => halpha (by simp [Char.isAlpha, hupper])
      rw [Char.toLower_eq_of_not_isUpper hupper]
      exact .inr (.inl hdigit)
  · have hrest : d = 'k' ∨ d = 'i' ∨ d = '_' := by
      split at h
      · simp_all
      · split at h <;> simp_all
    rcases hrest with rfl | rfl | rfl <;> decide

/-- Words are not empty, and they are what stands between underscores. -/
theorem wordsOf_ne_nil (hw : w ∈ wordsOf cs) : w ≠ [] ∧ '_' ∉ w :=
  ⟨ne_nil_of_mem_runs hw, fun hmem => absurd (of_mem_runs hw hmem).2 (by decide)⟩

theorem exists_joinWords_eq (h : [] ∉ ws) (hws : ws ≠ []) :
    ∃ c rest, joinWords ws = c :: rest ∧ ∃ w ∈ ws, c ∈ w := by
  obtain ⟨w, ws, rfl⟩ := List.exists_cons_of_ne_nil hws
  obtain ⟨c, rest, rfl⟩ := List.exists_cons_of_ne_nil (List.ne_of_not_mem_cons h).symm
  refine ⟨c, ?_⟩
  cases ws with
  | nil => exact ⟨rest, rfl, _, List.mem_cons_self, List.mem_cons_self⟩
  | cons v vs =>
      exact ⟨rest ++ '_' :: joinWords (v :: vs), rfl, _, List.mem_cons_self, List.mem_cons_self⟩

theorem not_keyword_of_underscore (h : cs.getLast? = some '_') : String.ofList cs ∉ keywords := by
  intro hmem
  have hkeywords : ∀ keyword ∈ keywords, keyword.toList.getLast? ≠ some '_' := by decide
  exact hkeywords _ hmem (by rwa [String.toList_ofList])

/-- The words from which an identifier is made. -/
def identifierWords (name : String) : List (List Char) :=
  if (nameWords name).isEmpty then noName else nameWords name

theorem toList_identifier : (identifier name).toList =
    guardKeyword (guardDigit (joinWords (identifierWords name))) := by
  rw [identifier, String.toList_ofList, identifierWords]

theorem identifierWords_ne_nil : identifierWords name ≠ [] := by
  unfold identifierWords
  split
  · decide
  · rename_i hne
    simpa using hne

theorem of_mem_identifierWords (hw : w ∈ identifierWords name) :
    w ≠ [] ∧ '_' ∉ w ∧ ∀ d ∈ w, IsLowerNameChar d := by
  unfold identifierWords at hw
  split at hw
  · obtain rfl := List.mem_singleton.mp hw
    have hparam : "param".toList.all (IsLowerNameChar ·) = true := by decide
    exact ⟨by decide, by decide, by simpa using hparam⟩
  · obtain ⟨hne, hunderscore⟩ := wordsOf_ne_nil hw
    refine ⟨hne, hunderscore, fun d hd => ?_⟩
    obtain ⟨c, -, h⟩ := List.mem_flatMap.mp (of_mem_runs hw hd).1
    exact isLowerNameChar_plainChar h

/-- An identifier starts with what starts its first word, or with an underscore before a digit. -/
theorem exists_guardDigit_eq : ∃ c rest,
    guardDigit (joinWords (identifierWords name)) = c :: rest ∧ (c.isLower = true ∨ c = '_') := by
  have hwords : [] ∉ identifierWords name := fun hnil => (of_mem_identifierWords hnil).1 rfl
  obtain ⟨c, rest, hjoin, w, hw, hc⟩ := exists_joinWords_eq hwords identifierWords_ne_nil
  rw [hjoin, guardDigit]
  split
  · exact ⟨'_', c :: rest, rfl, .inr rfl⟩
  · rename_i hdigit
    obtain ⟨-, hunderscore, hchars⟩ := of_mem_identifierWords hw
    refine ⟨c, rest, rfl, .inl ?_⟩
    rcases hchars c hc with h | h | rfl
    · exact h
    · exact absurd h hdigit
    · exact absurd hc hunderscore

theorem isLowerIdentifier_identifier (name : String) : IsLowerIdentifier (identifier name) := by
  obtain ⟨c, rest, hstart, hc⟩ := @exists_guardDigit_eq name
  refine ⟨⟨c, ?_⟩, fun d hd => ?_, ?_⟩
  · rw [toList_identifier, hstart, guardKeyword]
    split
    · exact ⟨rest ++ ['_'], rfl, hc⟩
    · exact ⟨rest, rfl, hc⟩
  · rw [toList_identifier] at hd
    rcases mem_of_mem_guardKeyword hd with rfl | hd
    · decide
    rcases mem_of_mem_guardDigit hd with rfl | hd
    · decide
    rcases mem_of_mem_joinWords hd with rfl | ⟨w, hw, hd⟩
    · decide
    exact (of_mem_identifierWords hw).2.2 d hd
  · rw [← String.ofList_toList (s := identifier name), toList_identifier, guardKeyword]
    split
    · exact not_keyword_of_underscore (by simp)
    · assumption

/-- Underscores at the end of an identifier keep it one. -/
theorem IsLowerIdentifier.underscored (h : IsLowerIdentifier name) (k : Nat) :
    IsLowerIdentifier (underscored name k) := by
  obtain ⟨⟨c, rest, hname, hc⟩, hchars, hkeyword⟩ := h
  unfold Naming.underscored
  refine ⟨⟨c, rest ++ List.replicate k '_', by simp [hname], hc⟩, fun d hd => ?_, ?_⟩
  · rw [String.toList_append, String.toList_ofList] at hd
    rcases List.mem_append.mp hd with hd | hd
    · exact hchars d hd
    · exact .inr (.inr (List.eq_of_mem_replicate hd))
  · cases k with
    | zero => simpa using hkeyword
    | succ k =>
        have hlast := @not_keyword_of_underscore (name.toList ++ List.replicate (k + 1) '_')
          (by simp [List.replicate_succ'])
        rwa [String.ofList_append, String.ofList_toList] at hlast

theorem IsLowerIdentifier.uniqueIdentifier {taken : List String} (h : IsLowerIdentifier name) :
    IsLowerIdentifier (uniqueIdentifier name taken) := by
  obtain ⟨k, hk⟩ : ∃ k, Naming.uniqueIdentifier name taken = Naming.underscored name k :=
    exists_fresh_eq
  rw [hk]
  exact h.underscored k

end Characters

end EndpointBindings.Naming
