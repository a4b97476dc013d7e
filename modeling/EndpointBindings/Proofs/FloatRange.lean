import Mathlib.Algebra.Order.Field.Power
import Mathlib.Data.Rat.Cast.Order
import Mathlib.Tactic.FieldSimp
import Mathlib.Tactic.Linarith
import Mathlib.Tactic.Ring
import EndpointBindings.Default

/-!
The range of the numbers of double precision. Rounding a quotient gives a significand of at most
fifty-three bits, so that an integer read from a number is never long, and an integer has no nearest
number exactly from half a step past the largest one on.
-/

namespace EndpointBindings.Number.Binary64

/-- The least size of an integer that rounds past every number: `2 ^ 1024`, which would be the next
one, less half the step before it. -/
def overflowBound : Nat := (2 ^ 54 - 1) * 2 ^ 970

/-- A significand of full precision at most, and no exponent past the largest. -/
def InRange : Binary64 → Prop
  | finite _ m e => m < 2 ^ 53 ∧ e ≤ maxExponent
  | infinite _ => True
  | nan => True

theorem scaled_snd_pos {num den : Nat} (hden : 0 < den) (e : Int) : 0 < (scaled num den e).2 := by
  unfold scaled
  split
  · exact hden
  · exact Nat.mul_pos hden (Nat.pow_pos (by decide))

/-- The two numbers of a scaled quotient are in the ratio that their name says. -/
theorem scaled_ratio {num den : Nat} (hden : 0 < den) (e : Int) :
    ((scaled num den e).1 : ℚ) / (scaled num den e).2 = num / den * (2 : ℚ) ^ (-e) := by
  have hden' : (den : ℚ) ≠ 0 := by exact_mod_cast hden.ne'
  unfold scaled
  split
  · rename_i h
    obtain ⟨k, hk⟩ : ∃ k : Nat, -e = k := ⟨(-e).toNat, by omega⟩
    have hpow : Nat.pow 2 k = 2 ^ k := rfl
    simp only [hk, Int.toNat_natCast, hpow, Nat.cast_mul, Nat.cast_pow, Nat.cast_ofNat,
      zpow_natCast]
    ring
  · rename_i h
    obtain ⟨k, rfl⟩ : ∃ k : Nat, e = k := ⟨e.toNat, by omega⟩
    have hpow : Nat.pow 2 k = 2 ^ k := rfl
    simp only [Int.toNat_natCast, hpow, Nat.cast_mul, Nat.cast_pow, Nat.cast_ofNat, zpow_neg,
      zpow_natCast]
    field_simp

theorem scaled_div_lt_iff {num den : Nat} (hden : 0 < den) (e : Int) (k : Nat) :
    (scaled num den e).1 / (scaled num den e).2 < k ↔
      (num : ℚ) / den * (2 : ℚ) ^ (-e) < k := by
  have hpos : (0 : ℚ) < (scaled num den e).2 := by exact_mod_cast scaled_snd_pos hden e
  rw [Nat.div_lt_iff_lt_mul (scaled_snd_pos hden e), ← scaled_ratio hden e, div_lt_iff₀ hpos]
  exact_mod_cast Iff.rfl

/-- The first guess of an exponent leaves at most fifty-three bits before the point. -/
theorem guess_lt {num den : Nat} (hden : 0 < den) :
    (num : ℚ) / den * (2 : ℚ) ^ (-((num.log2 : Int) - den.log2 - 52)) < 2 ^ 53 := by
  have hden' : (0 : ℚ) < den := by exact_mod_cast hden
  have hnum : (num : ℚ) < 2 ^ (num.log2 + 1) := by exact_mod_cast Nat.lt_log2_self
  have hlog : (2 : ℚ) ^ den.log2 ≤ den := by exact_mod_cast Nat.log2_self_le hden.ne'
  have hpow : (2 : ℚ) ^ (-((num.log2 : Int) - den.log2 - 52)) =
      2 ^ den.log2 * 2 ^ 52 / 2 ^ num.log2 := by
    rw [show -((num.log2 : Int) - den.log2 - 52) = den.log2 + 52 - num.log2 by ring,
      zpow_sub₀ (by norm_num), zpow_add₀ (by norm_num)]
    norm_cast
  rw [hpow]
  calc (num : ℚ) / den * (2 ^ den.log2 * 2 ^ 52 / 2 ^ num.log2)
      = num * (2 ^ den.log2 * 2 ^ 52) / (den * 2 ^ num.log2) := by field_simp
    _ < 2 ^ 53 := by
      rw [div_lt_iff₀ (by positivity)]
      calc (num : ℚ) * (2 ^ den.log2 * 2 ^ 52)
          < (2 : ℚ) ^ (num.log2 + 1) * (2 ^ den.log2 * 2 ^ 52) := by gcongr
        _ ≤ (2 : ℚ) ^ (num.log2 + 1) * (den * 2 ^ 52) := by gcongr
        _ = 2 ^ 53 * (den * 2 ^ num.log2) := by ring

theorem exponentFor_div_lt {num den : Nat} (hden : 0 < den) :
    (scaled num den (exponentFor num den)).1 / (scaled num den (exponentFor num den)).2 <
      2 ^ 53 := by
  rw [scaled_div_lt_iff hden]
  unfold exponentFor
  set guess : Int := num.log2 - den.log2 - 52 with hguess
  have hratio : (0 : ℚ) ≤ (num : ℚ) / den := div_nonneg (Nat.cast_nonneg _) (Nat.cast_nonneg _)
  have hlower : ∀ {a b : Int}, a ≤ b →
      (num : ℚ) / den * (2 : ℚ) ^ (-b) ≤ num / den * (2 : ℚ) ^ (-a) := by
    intro a b hab
    gcongr
    · norm_num
  apply lt_of_le_of_lt (hlower (le_max_right _ _))
  dsimp only
  split
  · rename_i hsmall
    have h := (scaled_div_lt_iff hden guess fullPrecision).mp hsmall
    have hdouble : (2 : ℚ) ^ (-(guess - 1)) = 2 * 2 ^ (-guess) := by
      rw [show -(guess - 1) = 1 + -guess by ring, zpow_add₀ (by norm_num), zpow_one]
    have hfull : ((fullPrecision : Nat) : ℚ) = 2 ^ 52 := by
      norm_num [fullPrecision]
    rw [hdouble]
    rw [hfull] at h
    push_cast
    linarith
  · push_cast
    exact guess_lt hden

theorem roundQuotient_le (num den : Nat) : roundQuotient num den ≤ num / den + 1 := by
  unfold roundQuotient
  dsimp only
  split <;> omega

theorem inRange_zero (negative : Bool) : (zero negative).InRange := by
  simp [zero, InRange, minExponent, maxExponent]

/-- A quotient is rounded into range, or past it. -/
theorem inRange_ofRatio (negative : Bool) (num : Nat) {den : Nat} (hden : 0 < den) :
    (ofRatio negative num den).InRange := by
  unfold ofRatio
  split
  · exact inRange_zero negative
  · dsimp only
    have hlt := @exponentFor_div_lt num den hden
    set e := exponentFor num den
    have hle := roundQuotient_le (scaled num den e).1 (scaled num den e).2
    set m := roundQuotient (scaled num den e).1 (scaled num den e).2
    have hfull : fullPrecision = 2 ^ 52 := rfl
    split
    · split
      · trivial
      · simp only [InRange, hfull]
        omega
    · split
      · trivial
      · simp only [InRange]
        omega

theorem inRange_ofDecimal (negative : Bool) (digits length : Nat) (exponent : Int) :
    (ofDecimal negative digits length exponent).InRange := by
  unfold ofDecimal
  split
  · exact inRange_zero negative
  · split
    · trivial
    · split
      · exact inRange_zero negative
      · split
        · exact inRange_ofRatio _ _ (Nat.pow_pos (by decide))
        · exact inRange_ofRatio _ _ Nat.one_pos

theorem ratio_div_lt {m bits k : Nat} {e : Int} (hm : m < 2 ^ bits) (he : e ≤ k) :
    (ratio m e).1 / (ratio m e).2 < 2 ^ (bits + k) := by
  unfold ratio
  split
  · calc m / Nat.pow 2 (-e).toNat ≤ m := Nat.div_le_self _ _
      _ < 2 ^ bits := hm
      _ ≤ 2 ^ (bits + k) := Nat.pow_le_pow_right (by decide) (Nat.le_add_right _ _)
  · have hexp : e.toNat ≤ k := by omega
    calc m * Nat.pow 2 e.toNat / 1 = m * 2 ^ e.toNat := Nat.div_one _
      _ < 2 ^ bits * 2 ^ e.toNat := Nat.mul_lt_mul_of_pos_right hm (Nat.pow_pos (by decide))
      _ = 2 ^ (bits + e.toNat) := (Nat.pow_add 2 _ _).symm
      _ ≤ 2 ^ (bits + k) := Nat.pow_le_pow_right (by decide) (Nat.add_le_add_left hexp _)

theorem natAbs_of_toInt? {negative : Bool} {m : Nat} {e i : Int}
    (h : (finite negative m e).toInt? = some i) : i.natAbs = (ratio m e).1 / (ratio m e).2 := by
  unfold toInt? at h
  dsimp only at h
  split at h
  · obtain rfl := Option.some.inj h
    split
    · rw [Int.natAbs_neg, Int.natAbs_natCast]
    · rw [Int.natAbs_natCast]
  · simp at h

theorem not_isLong_of_lt {i : Int} {k : Nat} (hi : i.natAbs < 2 ^ k) (hk : k ≤ maxDigits) :
    isLong i = false := by
  have hten : i.natAbs < 10 ^ k := lt_of_lt_of_le hi (Nat.pow_le_pow_left (by decide) k)
  unfold isLong
  generalize maxDigits = digits at hk ⊢
  have hdigits : 10 ^ k ≤ Nat.pow 10 digits := Nat.pow_le_pow_right (by decide) hk
  simpa using lt_of_lt_of_le hten hdigits

/-- An integer that a number is has few digits. -/
theorem not_isLong_of_toInt? {x : Binary64} {i : Int} (hx : x.InRange) (h : x.toInt? = some i) :
    isLong i = false := by
  cases x with
  | infinite negative => simp [toInt?] at h
  | nan => simp [toInt?] at h
  | finite negative m e =>
      have hlt := ratio_div_lt (k := 971) hx.1 hx.2
      exact not_isLong_of_lt (natAbs_of_toInt? h ▸ hlt) (by decide)

/-- An integer has fifty-three bits before the point at the exponent that its length gives. -/
theorem exponentFor_one {num : Nat} (hnum : num ≠ 0) : exponentFor num 1 = num.log2 - 52 := by
  have hlog : (1 : Nat).log2 = 0 := by decide
  have hguess : ¬ (scaled num 1 (num.log2 - 52)).1 / (scaled num 1 (num.log2 - 52)).2 <
      fullPrecision := by
    rw [scaled_div_lt_iff Nat.one_pos, not_lt]
    have hle : (2 : ℚ) ^ num.log2 ≤ num := by exact_mod_cast Nat.log2_self_le hnum
    have hfull : ((fullPrecision : Nat) : ℚ) = 2 ^ 52 := by norm_num [fullPrecision]
    have hpow : (2 : ℚ) ^ (-((num.log2 : Int) - 52)) = 2 ^ 52 / 2 ^ num.log2 := by
      rw [neg_sub, zpow_sub₀ (by norm_num)]
      norm_cast
    rw [hfull, hpow, Nat.cast_one, div_one, mul_div_assoc', le_div_iff₀ (by positivity)]
    nlinarith
  unfold exponentFor
  dsimp only
  rw [hlog, Nat.cast_zero, sub_zero, if_neg hguess, minExponent]
  omega

/-- A quotient below an even number rounds up to it from a quarter of its last step on. -/
theorem roundQuotient_eq_iff {num half k : Nat} (hhalf : 0 < half)
    (hlt : num / (2 * half) < 2 * k) :
    roundQuotient num (2 * half) = 2 * k ↔ (4 * k - 1) * half ≤ num := by
  have hmod := Nat.div_add_mod num (2 * half)
  have hrest := Nat.mod_lt num (show 0 < 2 * half by omega)
  unfold roundQuotient
  dsimp only
  generalize num / (2 * half) = q at *
  generalize num % (2 * half) = r at *
  constructor
  · intro h
    have hq : q + 1 = 2 * k := by
      split at h <;> omega
    have hr : half ≤ r := by
      split at h
      · rename_i hup
        simp only [Bool.or_eq_true, decide_eq_true_eq, Bool.and_eq_true, beq_iff_eq] at hup
        omega
      · omega
    obtain ⟨j, rfl⟩ : ∃ j, k = j + 1 := ⟨k - 1, by omega⟩
    obtain rfl : q = 2 * j + 1 := by omega
    calc (4 * (j + 1) - 1) * half = 2 * half * (2 * j + 1) + half := by
          rw [show 4 * (j + 1) - 1 = 2 * (2 * j + 1) + 1 by omega]
          ring
      _ ≤ num := by omega
  · intro h
    obtain ⟨j, rfl⟩ : ∃ j, k = j + 1 := ⟨k - 1, by omega⟩
    have hsplit : (4 * (j + 1) - 1) * half = 2 * half * (2 * j + 1) + half := by
      rw [show 4 * (j + 1) - 1 = 2 * (2 * j + 1) + 1 by omega]
      ring
    have hq : q = 2 * j + 1 := by
      by_contra hne
      have hle : q + 1 ≤ 2 * j + 1 := by omega
      have := Nat.mul_le_mul_left (2 * half) hle
      rw [Nat.mul_add, Nat.mul_one] at this
      omega
    subst hq
    have hup : (decide (2 * half < 2 * r) ||
        (2 * half == 2 * r && (2 * j + 1) % 2 == 1)) = true := by
      simp only [Bool.or_eq_true, decide_eq_true_eq, Bool.and_eq_true, beq_iff_eq]
      omega
    rw [if_pos hup]
    omega

theorem ofRatio_one_overflows_iff {negative : Bool} {num : Nat} (hnum : num ≠ 0) {e : Int}
    (he : num.log2 - 52 = e) :
    (∃ t, ofRatio negative num 1 = infinite t) ↔
      maxExponent < e ∨
        (maxExponent = e ∧ roundQuotient (scaled num 1 e).1 (scaled num 1 e).2 = 2 * 2 ^ 52) := by
  have hfull : fullPrecision = 2 ^ 52 := rfl
  unfold ofRatio
  rw [if_neg hnum, exponentFor_one hnum, he]
  dsimp only
  rw [hfull]
  split
  · rename_i hm
    split
    · simp only [infinite.injEq, exists_eq', true_iff]
      omega
    · simp only [reduceCtorEq, exists_const, false_iff]
      omega
  · rename_i hm
    split
    · simp only [infinite.injEq, exists_eq', true_iff]
      omega
    · simp only [reduceCtorEq, exists_const, false_iff]
      omega

/-- Which naturals round past every number: those of more than `1024` bits, and of `1024` bits those
in the upper half of the last step. -/
theorem ofRatio_one_eq_infinite_iff {negative : Bool} {num : Nat} (hnum : num ≠ 0) :
    (∃ t, ofRatio negative num 1 = infinite t) ↔ overflowBound ≤ num := by
  have hself : 2 ^ num.log2 ≤ num := Nat.log2_self_le hnum
  have hlt : num < 2 ^ (num.log2 + 1) := Nat.lt_log2_self
  rw [ofRatio_one_overflows_iff hnum rfl]
  unfold overflowBound
  generalize hk : 970 = k
  have hhalf : 0 < 2 ^ k := Nat.pow_pos (by decide)
  rcases Nat.lt_trichotomy num.log2 (53 + k) with hlog | hlog | hlog
  · have hpow : 2 ^ (num.log2 + 1) ≤ 2 ^ 53 * 2 ^ k := by
      rw [← Nat.pow_add]
      exact Nat.pow_le_pow_right (by decide) hlog
    simp only [maxExponent]
    omega
  · have hsmall : num < 2 * 2 ^ 52 * (2 * 2 ^ k) := by
      apply lt_of_lt_of_eq hlt
      rw [hlog, Nat.pow_succ, Nat.pow_add]
      ring
    have hscaled : scaled num 1 (num.log2 - 52) = (num, 2 * 2 ^ k) := by
      have he : ((num.log2 : Int) - 52) = ((k + 1 : Nat) : Int) := by omega
      rw [he, scaled, if_neg (by omega), Int.toNat_natCast, Nat.pow_eq, Nat.pow_succ, one_mul,
        Nat.mul_comm]
    rw [hscaled, roundQuotient_eq_iff hhalf (by rwa [Nat.div_lt_iff_lt_mul (by omega)])]
    simp only [maxExponent]
    omega
  · have hpow : 2 ^ 54 * 2 ^ k ≤ 2 ^ num.log2 := by
      rw [← Nat.pow_add]
      exact Nat.pow_le_pow_right (by decide) (by omega)
    simp only [maxExponent]
    omega

/-- An integer has no nearest number exactly when its size is at least the bound. -/
theorem ofInt?_eq_none_iff {i : Int} : ofInt? i = none ↔ overflowBound ≤ i.natAbs := by
  have hmatch : ofInt? i = none ↔ ∃ t, ofRatio (i < 0) i.natAbs 1 = infinite t := by
    unfold ofInt?
    split
    · rename_i negative h
      simp [h]
    · rename_i h
      simp only [reduceCtorEq, false_iff]
      rintro ⟨t, ht⟩
      exact h t ht
  rw [hmatch]
  by_cases hi : i.natAbs = 0
  · have hpos : 0 < overflowBound := Nat.mul_pos (by decide) (pow_pos (by decide) _)
    have hzero : ofRatio (decide (i < 0)) 0 1 = zero (decide (i < 0)) := if_pos rfl
    rw [hi, hzero]
    simp only [zero, reduceCtorEq, exists_const, false_iff]
    omega
  · exact ofRatio_one_eq_infinite_iff hi

end EndpointBindings.Number.Binary64
