import EndpointBindings.Emission.Literal
import EndpointBindings.Proofs.FunctionNames
import EndpointBindings.Proofs.SourceSkeleton

/-!
The characters of names and numbers in emitted source: letters, digits and a few signs. So names and
numbers are free of quotes, backslashes and line ends.
-/

namespace EndpointBindings.Emission

open EndpointBindings.Naming EndpointBindings.Number EndpointBindings.Number.Binary64

section Names

variable {c : Char} {name endpoint : String} {taken : List String}

/-- Text of the characters of identifiers. -/
def IsNameText (name : String) : Prop := ∀ c ∈ name.toList, IsNameChar c

theorem plain_of_isNameChar (h : IsNameChar c) : c ≠ '"' ∧ c ≠ '\\' := by
  constructor
  · rintro rfl
    rcases h with h | h <;> exact absurd h (by decide)
  · rintro rfl
    rcases h with h | h <;> exact absurd h (by decide)

theorem IsNameText.isPlain (h : IsNameText name) : IsPlain name :=
  fun c hc => plain_of_isNameChar (h c hc)

theorem isAlphanum_toUpper (h : c.isAlphanum = true) : c.toUpper.isAlphanum = true := by
  by_cases hlower : c.isLower = true
  · have halpha : c.toUpper.isAlpha = true := by
      rw [Char.isAlpha_toUpper_eq_isAlpha, Char.isAlpha, hlower, Bool.or_true]
    rw [Char.isAlphanum, halpha, Bool.true_or]
  · rw [Char.toUpper_eq_of_not_isLower hlower]
    exact h

theorem isNameText_identifier : IsNameText (identifier name) := fun _ hc => isNameChar_identifier hc

theorem IsNameText.uniqueIdentifier (h : IsNameText name) :
    IsNameText (uniqueIdentifier name taken) := by
  obtain ⟨k, hk⟩ : ∃ k, Naming.uniqueIdentifier name taken = underscored name k := exists_fresh_eq
  intro c hc
  rw [hk, underscored, String.toList_append, String.toList_ofList] at hc
  rcases List.mem_append.mp hc with hc | hc
  · exact h c hc
  · exact .inr (List.eq_of_mem_replicate hc)

theorem isNameText_className : IsNameText (className endpoint) := by
  intro c hc
  rw [className, String.toList_append, String.toList_ofList] at hc
  rcases List.mem_append.mp hc with hc | hc
  · obtain ⟨w, hw, hc⟩ := List.mem_flatMap.mp hc
    have hword : ∀ d ∈ w, IsNameChar d := fun d hd =>
      isNameChar_identifier (Text.of_mem_runs hw hd).1
    cases w with
    | nil => simp [capitalise] at hc
    | cons d rest =>
        rcases List.mem_cons.mp hc with rfl | hc
        · exact (hword d List.mem_cons_self).imp isAlphanum_toUpper fun h => by rw [h]; decide
        · exact hword c (List.mem_cons_of_mem _ hc)
  · have hending : "Params".toList.all Char.isAlphanum = true := by decide
    exact .inl (List.all_eq_true.mp hending c hc)

theorem isNameText_uniqueFunctionName {verb : Verb} {parts : List String} :
    IsNameText (uniqueFunctionName (functionName verb parts) taken) := by
  obtain ⟨k, hk⟩ : ∃ k, uniqueFunctionName (functionName verb parts) taken =
      numbered (functionName verb parts) k := exists_fresh_eq
  rw [hk]
  exact (startsWith_functionName.numbered k).isIdentifier.chars

theorem isPlain_className : IsPlain (className endpoint) := isNameText_className.isPlain

end Names

section Numbers

variable {c : Char} {cs : List Char} {x : Binary64}

/-- The characters of numbers in decimal. -/
def IsNumberChar (c : Char) : Prop := c.isDigit = true ∨ c ∈ ['+', '-', '.', 'e']

instance : Decidable (IsNumberChar c) :=
  inferInstanceAs (Decidable (c.isDigit = true ∨ c ∈ ['+', '-', '.', 'e']))

def AreNumeral (cs : List Char) : Prop := ∀ c ∈ cs, IsNumberChar c

instance : Decidable (AreNumeral cs) := List.decidableBAll IsNumberChar cs

theorem plain_of_isNumberChar (h : IsNumberChar c) : c ≠ '"' ∧ c ≠ '\\' := by
  constructor
  · rintro rfl
    exact absurd h (by decide)
  · rintro rfl
    exact absurd h (by decide)

theorem AreNumeral.arePlain (h : AreNumeral cs) : ArePlain cs :=
  fun c hc => plain_of_isNumberChar (h c hc)

theorem AreNumeral.append {ds : List Char} (hc : AreNumeral cs) (hd : AreNumeral ds) :
    AreNumeral (cs ++ ds) :=
  List.forall_mem_append.mpr ⟨hc, hd⟩

theorem AreNumeral.cons (hc : IsNumberChar c) (h : AreNumeral cs) : AreNumeral (c :: cs) :=
  List.forall_mem_cons.mpr ⟨hc, h⟩

theorem AreNumeral.of_subset {ds : List Char} (hc : AreNumeral cs) (h : ds ⊆ cs) : AreNumeral ds :=
  fun c hd => hc c (h hd)

theorem areNumeral_repr (n : Nat) : AreNumeral n.repr.toList := by
  intro c hc
  rw [Nat.toList_repr] at hc
  exact .inl (Nat.isDigit_of_mem_toDigits (by omega) (by omega) hc)

theorem areNumeral_zeros (n : Nat) : AreNumeral (List.replicate n '0') := by
  intro c hc
  rw [List.eq_of_mem_replicate hc]
  decide

theorem areNumeral_toString (i : Int) : AreNumeral (toString i).toList := by
  cases i with
  | ofNat n => exact areNumeral_repr n
  | negSucc n =>
      have hsign : (toString (Int.negSucc n)).toList = '-' :: (n + 1).repr.toList :=
        String.toList_append
      rw [hsign]
      exact (areNumeral_repr (n + 1)).cons (by decide)

theorem isPlain_toString (i : Int) : IsPlain (toString i) := (areNumeral_toString i).arePlain

theorem areNumeral_stripZeros (h : AreNumeral cs) : AreNumeral (stripZeros cs) := by
  unfold stripZeros
  split
  · decide
  · apply h.of_subset
    intro c hc
    simpa using (List.dropWhile_subset _ (List.mem_reverse.mp hc))

theorem areNumeral_exponentText (e : Int) : AreNumeral (exponentText e) := by
  have hn := areNumeral_repr e.natAbs
  have hpadded : AreNumeral (if e.natAbs.repr.toList.length < 2 then '0' :: e.natAbs.repr.toList
      else e.natAbs.repr.toList) := by
    split
    · exact hn.cons (by decide)
    · exact hn
  refine AreNumeral.cons (by decide) (hpadded.cons ?_)
  split <;> decide

theorem areNumeral_layout (h : AreNumeral cs) (e : Int) : AreNumeral (layout cs e) := by
  unfold layout
  split
  · split
    · rename_i d rest
      obtain ⟨hd, hrest⟩ := List.forall_mem_cons.mp h
      refine AreNumeral.cons hd (AreNumeral.append ?_ (areNumeral_exponentText e))
      split
      · exact fun _ hc => absurd hc List.not_mem_nil
      · exact AreNumeral.cons (by decide) hrest
    · exact h
  · split
    · apply AreNumeral.cons (by decide)
      exact AreNumeral.cons (by decide) ((areNumeral_zeros _).append h)
    · have hpadded : ∀ n, AreNumeral (cs ++ List.replicate n '0') := fun n =>
        h.append (areNumeral_zeros n)
      refine ((hpadded _).of_subset (List.take_subset _ _)).append
        (AreNumeral.cons (by decide) ?_)
      split
      · decide
      · exact (hpadded _).of_subset (List.drop_subset _ _)

theorem areNumeral_text (hx : x.isFinite = true) : AreNumeral x.text.toList := by
  cases x with
  | finite negative m e =>
      have hdigits : ∀ (q : Nat) (place : Int),
          AreNumeral (layout (stripZeros q.repr.toList) place) := fun q place =>
        areNumeral_layout (areNumeral_stripZeros (areNumeral_repr q)) place
      have hbody : ∀ {body : List Char}, AreNumeral body →
          AreNumeral (if negative then '-' :: body else body) := by
        intro body hbody
        split
        · exact hbody.cons (by decide)
        · exact hbody
      unfold text
      rw [String.toList_ofList]
      apply hbody
      split
      · decide
      · exact hdigits _ _
  | infinite negative => simp [Binary64.isFinite] at hx
  | nan => simp [Binary64.isFinite] at hx

theorem isPlain_text (hx : x.isFinite = true) : IsPlain x.text := (areNumeral_text hx).arePlain

end Numbers

end EndpointBindings.Emission
