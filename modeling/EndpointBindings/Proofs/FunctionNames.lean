import Mathlib
import EndpointBindings.Naming
import EndpointBindings.Proofs.FreshNames

/-!
Names of functions as identifiers of Python source. A name starts with the word of its verb and goes
on behind an underscore, so it tells its verb and is no keyword.
-/

namespace EndpointBindings.Naming

open EndpointBindings.Text

/-- The characters of identifiers, ASCII only. -/
def IsNameChar (c : Char) : Prop := c.isAlphanum = true ∨ c = '_'

/-- An identifier of Python source. -/
structure IsIdentifier (name : String) : Prop where
  start : ∃ c rest, name.toList = c :: rest ∧ (c.isAlpha = true ∨ c = '_')
  chars : ∀ c ∈ name.toList, IsNameChar c
  notKeyword : name ∉ keywords

section Characters

variable {c d : Char} {cs : List Char} {ws : List (List Char)} {name : String}

theorem isAlphanum_toLower (h : c.isAlphanum = true) : c.toLower.isAlphanum = true := by
  by_cases hupper : c.isUpper = true
  · have halpha : c.toLower.isAlpha = true := by
      rw [Char.isAlpha_toLower_eq_isAlpha, Char.isAlpha, hupper, Bool.true_or]
    rw [Char.isAlphanum, halpha, Bool.true_or]
  · rw [Char.toLower_eq_of_not_isUpper hupper]
    exact h

theorem isNameChar_plainChar (h : d ∈ plainChar c) : IsNameChar d := by
  unfold plainChar at h
  split at h
  · rename_i halphanum
    obtain rfl := List.mem_singleton.mp h
    exact .inl (isAlphanum_toLower halphanum)
  · have hrest : d = 'k' ∨ d = 'i' ∨ d = '_' := by
      split at h
      · simp_all
      · split at h <;> simp_all
    rcases hrest with rfl | rfl | rfl
    · exact .inl (by decide)
    · exact .inl (by decide)
    · exact .inr rfl

theorem mem_of_mem_joinWords (h : d ∈ joinWords ws) : d = '_' ∨ ∃ w ∈ ws, d ∈ w := by
  fun_induction joinWords ws with
  | case1 => simp at h
  | case2 w => exact .inr ⟨w, List.mem_cons_self, h⟩
  | case3 w ws _ ih =>
      rcases List.mem_append.mp h with h | h
      · exact .inr ⟨w, List.mem_cons_self, h⟩
      · rcases List.mem_cons.mp h with rfl | h
        · exact .inl rfl
        · rcases ih h with rfl | ⟨v, hv, hd⟩
          · exact .inl rfl
          · exact .inr ⟨v, List.mem_cons_of_mem _ hv, hd⟩

theorem mem_of_mem_guardDigit (h : d ∈ guardDigit cs) : d = '_' ∨ d ∈ cs := by
  unfold guardDigit at h
  split at h
  · split at h
    · exact List.mem_cons.mp h
    · exact .inr h
  · simp at h

theorem mem_of_mem_guardKeyword (h : d ∈ guardKeyword cs) : d = '_' ∨ d ∈ cs := by
  unfold guardKeyword at h
  split at h
  · rcases List.mem_append.mp h with h | h
    · exact .inr h
    · exact .inl (List.mem_singleton.mp h)
  · exact .inr h

theorem isNameChar_of_nameWords {w : List Char} (hw : w ∈ nameWords name) (hd : d ∈ w) :
    IsNameChar d := by
  obtain ⟨c, -, h⟩ := List.mem_flatMap.mp (of_mem_runs hw hd).1
  exact isNameChar_plainChar h

/-- Identifiers of names have no characters but those of identifiers. -/
theorem isNameChar_identifier (h : d ∈ (identifier name).toList) : IsNameChar d := by
  unfold identifier at h
  rw [String.toList_ofList] at h
  rcases mem_of_mem_guardKeyword h with rfl | h
  · exact .inr rfl
  rcases mem_of_mem_guardDigit h with rfl | h
  · exact .inr rfl
  rcases mem_of_mem_joinWords h with rfl | ⟨w, hw, hd⟩
  · exact .inr rfl
  split at hw
  · obtain rfl := List.mem_singleton.mp hw
    have hparam : "param".toList.all Char.isAlphanum = true := by decide
    exact .inl (List.all_eq_true.mp hparam d hd)
  · exact isNameChar_of_nameWords hw hd

end Characters

section FunctionNames

variable {verb other : Verb} {parts : List String} {name : String}

/-- A name that starts with a verb, and goes on behind an underscore if it does. -/
def StartsWith (verb : Verb) (name : String) : Prop :=
  ∃ tail, name.toList = verb.word.toList ++ tail ∧ (∀ c ∈ tail, IsNameChar c) ∧
    (tail = [] ∨ ∃ rest, tail = '_' :: rest)

theorem toList_functionName :
    (functionName verb parts).toList =
      verb.word.toList ++ parts.flatMap fun part => '_' :: (identifier part).toList := by
  unfold functionName
  generalize verb.word = word
  induction parts generalizing word with
  | nil => simp
  | cons part rest ih =>
      rw [List.map_cons, String.intercalate_cons_cons, String.toList_append,
        String.toList_append, ih]
      simp

theorem startsWith_functionName : StartsWith verb (functionName verb parts) := by
  refine ⟨_, toList_functionName, fun c hc => ?_, ?_⟩
  · obtain ⟨part, -, hc⟩ := List.mem_flatMap.mp hc
    rcases List.mem_cons.mp hc with rfl | hc
    · exact .inr rfl
    · exact isNameChar_identifier hc
  · cases parts with
    | nil => exact .inl rfl
    | cons part rest => exact .inr ⟨_, rfl⟩

theorem StartsWith.numbered (h : StartsWith verb name) (k : Nat) :
    StartsWith verb (numbered name k) := by
  obtain ⟨tail, hname, hchars, hstart⟩ := h
  unfold Naming.numbered
  split
  · exact ⟨tail, hname, hchars, hstart⟩
  · refine ⟨tail ++ '_' :: Nat.toDigits 10 (k + 1), ?_, fun c hc => ?_, .inr ?_⟩
    · simp [hname]
    · rcases List.mem_append.mp hc with hc | hc
      · exact hchars c hc
      · rcases List.mem_cons.mp hc with rfl | hc
        · exact .inr rfl
        · have hdigit := Nat.isDigit_of_mem_toDigits (by omega) (by omega) hc
          exact .inl (by simp [Char.isAlphanum, hdigit])
    · rcases hstart with rfl | ⟨rest, rfl⟩
      · exact ⟨_, rfl⟩
      · exact ⟨_, rfl⟩

theorem word_chars : ∀ c ∈ verb.word.toList, c.isAlpha = true := by
  rw [← List.all_eq_true]
  cases verb <;> decide

/-- The verb is what stands before the first underscore. -/
theorem StartsWith.takeWhile_eq (h : StartsWith verb name) :
    name.toList.takeWhile (· != '_') = verb.word.toList := by
  obtain ⟨tail, hname, -, hstart⟩ := h
  have hword : ∀ c ∈ verb.word.toList, (c != '_') = true := by
    rw [← List.all_eq_true]
    cases verb <;> decide
  rw [hname, List.takeWhile_append_of_pos hword]
  rcases hstart with rfl | ⟨rest, rfl⟩
  · simp
  · simp

theorem StartsWith.unique (h : StartsWith verb name) (h' : StartsWith other name) :
    verb = other := by
  have hwords : verb.word.toList = other.word.toList := h.takeWhile_eq.symm.trans h'.takeWhile_eq
  revert hwords
  cases verb <;> cases other <;> decide

theorem StartsWith.isIdentifier (h : StartsWith verb name) : IsIdentifier name := by
  have htake := h.takeWhile_eq
  obtain ⟨tail, hname, hchars, -⟩ := h
  constructor
  · have hword : ∃ c rest, verb.word.toList = c :: rest := by
      cases verb <;> exact ⟨_, _, rfl⟩
    obtain ⟨c, rest, hc⟩ := hword
    refine ⟨c, rest ++ tail, by rw [hname, hc]; rfl, .inl (@word_chars verb c ?_)⟩
    rw [hc]
    exact List.mem_cons_self
  · intro c hc
    rw [hname] at hc
    rcases List.mem_append.mp hc with hc | hc
    · exact .inl (by simp [Char.isAlphanum, word_chars c hc])
    · exact hchars c hc
  · intro hmem
    have hkeywords : ∀ keyword ∈ keywords,
        keyword.toList.takeWhile (· != '_') ≠ verb.word.toList := by
      cases verb <;> decide
    exact hkeywords name hmem htake

end FunctionNames

end EndpointBindings.Naming
