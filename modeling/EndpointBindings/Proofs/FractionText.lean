import EndpointBindings.Number.Shortest
import Mathlib.Data.List.Basic

/-!
The text of a floating-point number as a decimal fraction. However its digits are laid out, they
have a point between them or an exponent behind them, so the text is not that of an integer.
-/

namespace EndpointBindings.Number

/-- Decimal digits, of which there are some. -/
def AreDigits (cs : List Char) : Prop := cs ≠ [] ∧ ∀ c ∈ cs, c.isDigit = true

/-- The exponent at the end of a fraction. -/
def IsExponent (cs : List Char) : Prop :=
  ∃ sign ds, (sign = '+' ∨ sign = '-') ∧ AreDigits ds ∧ cs = 'e' :: sign :: ds

/-- A decimal fraction without its sign: digits around a point, or digits with an exponent, or
both. -/
inductive IsFraction : List Char → Prop
  | pointed {whole fraction : List Char} (hwhole : AreDigits whole)
      (hfraction : AreDigits fraction) : IsFraction (whole ++ '.' :: fraction)
  | scaled {whole exponent : List Char} (hwhole : AreDigits whole)
      (hexponent : IsExponent exponent) : IsFraction (whole ++ exponent)
  | pointedScaled {whole fraction exponent : List Char} (hwhole : AreDigits whole)
      (hfraction : AreDigits fraction) (hexponent : IsExponent exponent) :
      IsFraction (whole ++ '.' :: fraction ++ exponent)

section Digits

open Binary64

variable {c : Char} {cs : List Char}

theorem areDigits_repr (n : Nat) : AreDigits n.repr.toList := by
  rw [Nat.toList_repr]
  exact ⟨Nat.toDigits_ne_nil, fun c hc => Nat.isDigit_of_mem_toDigits (by omega) (by omega) hc⟩

theorem AreDigits.cons (hc : c.isDigit = true) (h : ∀ d ∈ cs, d.isDigit = true) :
    AreDigits (c :: cs) :=
  ⟨List.cons_ne_nil _ _, List.forall_mem_cons.mpr ⟨hc, h⟩⟩

theorem areDigits_zero : AreDigits ['0'] := .cons (by decide) (by simp)

theorem isDigit_of_mem_append_zeros {n : Nat} (h : AreDigits cs) :
    ∀ c ∈ cs ++ List.replicate n '0', c.isDigit = true := by
  intro c hc
  rcases List.mem_append.mp hc with hc | hc
  · exact h.2 c hc
  · rw [List.eq_of_mem_replicate hc]
    decide

theorem areDigits_stripZeros (h : AreDigits cs) : AreDigits (stripZeros cs) := by
  unfold stripZeros
  split
  · exact areDigits_zero
  · rename_i ds hds
    refine ⟨hds, fun c hc => h.2 c ?_⟩
    simpa using List.dropWhile_subset _ (List.mem_reverse.mp hc)

theorem isExponent_exponentText (e : Int) : IsExponent (exponentText e) := by
  have hdigits := areDigits_repr e.natAbs
  refine ⟨if e < 0 then '-' else '+', _, by split <;> simp, ?_, rfl⟩
  split
  · exact .cons (by decide) hdigits.2
  · exact hdigits

/-- Digits are laid out as a fraction, wherever the point belongs. -/
theorem isFraction_layout (h : AreDigits cs) (e : Int) : IsFraction (layout cs e) := by
  obtain ⟨d, rest, rfl⟩ := List.exists_cons_of_ne_nil h.1
  obtain ⟨hd, hrest⟩ := List.forall_mem_cons.mp h.2
  have hfirst : AreDigits [d] := .cons hd (by simp)
  unfold layout
  split
  · cases rest with
    | nil => exact .scaled hfirst (isExponent_exponentText e)
    | cons d' more => exact .pointedScaled hfirst (.cons (hrest d' List.mem_cons_self)
        (List.forall_mem_cons.mp hrest).2) (isExponent_exponentText e)
  · split
    · refine .pointed areDigits_zero ⟨by simp, fun c hc => ?_⟩
      rcases List.mem_append.mp hc with hc | hc
      · rw [List.eq_of_mem_replicate hc]
        decide
      · exact h.2 c hc
    · have hpadded := @isDigit_of_mem_append_zeros (d :: rest)
        (e.toNat + 1 - (d :: rest).length) h
      refine .pointed ⟨by simp, fun c hc => hpadded c (List.mem_of_mem_take hc)⟩ ?_
      split
      · exact areDigits_zero
      · rename_i hne
        exact ⟨by simpa using hne, fun c hc => hpadded c (List.mem_of_mem_drop hc)⟩

/-- The text of a finite number is a fraction, perhaps behind a sign. -/
theorem isFraction_text {x : Binary64} (hx : x.isFinite = true) :
    ∃ cs, IsFraction cs ∧ (x.text.toList = cs ∨ x.text.toList = '-' :: cs) := by
  cases x with
  | finite negative m e =>
      have hzero : IsFraction (['0'] ++ '.' :: ['0']) := .pointed areDigits_zero areDigits_zero
      have hbody : IsFraction (if m = 0 then ['0', '.', '0'] else
          layout (stripZeros (shortest m e).1.repr.toList)
            ((shortest m e).2 + ((shortest m e).1.repr.toList.length - 1 : Nat))) := by
        split
        · exact hzero
        · exact isFraction_layout (areDigits_stripZeros (areDigits_repr _)) _
      refine ⟨_, hbody, ?_⟩
      rw [text, String.toList_ofList]
      cases negative with
      | false => exact .inl rfl
      | true => exact .inr rfl
  | infinite negative => simp [isFinite] at hx
  | nan => simp [isFinite] at hx

end Digits

end EndpointBindings.Number
