import EndpointBindings.Proofs.AssemblySuccess

/-!
The defaults that a type has. What is checked against a type comes out under the tag that goes with
it, an integer within the bounds of its kind and a choice among its options; so an integer that is
too long to be written is a default of an unknown type only.
-/

namespace EndpointBindings.Default

open EndpointBindings.Number

/-- The defaults that fit a type. -/
inductive Fits : ValueType → Default → Prop
  | string (s : String) : Fits .string (.text s)
  | time (s : String) : Fits .time (.text s)
  | boolean (b : Bool) : Fits .boolean (.flag b)
  | list (items : List String) : Fits .list (.list items)
  | choice {options : Options} {s : String} (h : s ∈ options.texts) :
      Fits (.choice options) (.text s)
  | integer {kind : NumberKind} {width : Nat} {i : Int} (hwidth : kind.width? = some width)
      (hlow : (NumberKind.bounds width).1 ≤ i) (hhigh : i ≤ (NumberKind.bounds width).2) :
      Fits (.number kind) (.integer i)
  | float {kind : NumberKind} (hwidth : kind.width? = none) (x : Binary64) :
      Fits (.number kind) (.float x)
  | other (name : String) (d : Default) : Fits (.other name) d

variable {type : ValueType} {kind : NumberKind} {options : Options} {v : Value} {expected : String}
  {d : Default} {i : Int} {width : Nat}

@[simp] theorem mismatch_ne_ok {actual : String} {detail : Option String} :
    mismatch expected actual detail ≠ .ok d := by
  simp [mismatch]

theorem fitText_eq_ok : fitText expected v = .ok d ↔ ∃ s, v = .text s ∧ d = .text s := by
  unfold fitText
  split
  · simp [eq_comm]
  · rename_i hv
    simp only [mismatch_ne_ok, false_iff]
    rintro ⟨s, hs, -⟩
    exact hv s hs

theorem fitFlag_eq_ok : fitFlag expected v = .ok d ↔ ∃ b, v = .bool b ∧ d = .flag b := by
  unfold fitFlag
  split
  · simp [eq_comm]
  · rename_i hv
    simp only [mismatch_ne_ok, false_iff]
    rintro ⟨b, hb, -⟩
    exact hv b hb

theorem fitChoice_eq_ok : fitChoice expected options v = .ok d ↔
    ∃ s ∈ options.texts, v = .text s ∧ d = .text s := by
  unfold fitChoice
  split
  · rename_i s
    split
    · rename_i hs
      simp [hs, eq_comm]
    · rename_i hs
      simp only [mismatch_ne_ok, false_iff]
      rintro ⟨t, ht, hst, -⟩
      exact hs (Value.text.inj hst ▸ ht)
  · rename_i hv
    simp only [mismatch_ne_ok, false_iff]
    rintro ⟨s, -, hs, -⟩
    exact hv s hs

theorem fitWidth_eq_ok : fitWidth expected width i = .ok d ↔
    d = .integer i ∧ (NumberKind.bounds width).1 ≤ i ∧ i ≤ (NumberKind.bounds width).2 := by
  rw [fitWidth]
  dsimp only
  split_ifs with hbounds
  · simp [hbounds, eq_comm]
  · simp [hbounds]
  · simp [hbounds]

theorem fits_of_fitNumber (h : fitNumber expected kind v = .ok d) : Fits (.number kind) d := by
  unfold fitNumber at h
  split at h
  · rename_i hwidth
    obtain ⟨rfl, hlow, hhigh⟩ := fitWidth_eq_ok.mp h
    exact .integer hwidth hlow hhigh
  · rename_i hwidth
    split at h
    · obtain ⟨rfl, hlow, hhigh⟩ := fitWidth_eq_ok.mp h
      exact .integer hwidth hlow hhigh
    · simp at h
  · rename_i hwidth
    split at h
    · obtain rfl := Except.ok.inj h
      exact .float hwidth _
    · simp at h
  · rename_i hwidth
    obtain rfl := Except.ok.inj h
    exact .float hwidth _
  · simp at h

/-- What is accepted as a default of a type fits it. -/
theorem fits_of_fit (h : fit type v = .ok d) : Fits type d := by
  cases type with
  | string =>
      obtain ⟨s, -, rfl⟩ := fitText_eq_ok.mp h
      exact .string s
  | time =>
      obtain ⟨s, -, rfl⟩ := fitText_eq_ok.mp h
      exact .time s
  | boolean =>
      obtain ⟨b, -, rfl⟩ := fitFlag_eq_ok.mp h
      exact .boolean b
  | list =>
      obtain ⟨items, rfl, -⟩ := Assembly.fitList_eq_ok.mp h
      exact .list items
  | choice options =>
      obtain ⟨s, hs, -, rfl⟩ := fitChoice_eq_ok.mp h
      exact .choice hs
  | number kind => exact fits_of_fitNumber h
  | other name => exact .other name d

/-- Integers of a known width have few digits. -/
theorem not_isLong_of_bounds (hwidth : kind.width? = some width)
    (hlow : (NumberKind.bounds width).1 ≤ i) (hhigh : i ≤ (NumberKind.bounds width).2) :
    isLong i = false := by
  have hpower : Nat.pow 2 (width - 1) ≤ 2 ^ 63 := by cases kind <;> cases hwidth <;> decide
  simp only [NumberKind.bounds] at hlow hhigh
  exact Binary64.not_isLong_of_lt (k := 64) (by omega) (by decide)

theorem Fits.exists_other (h : Fits type (.integer i)) (hlong : isLong i = true) :
    ∃ name, type = .other name := by
  cases h with
  | integer hwidth hlow hhigh => simp [not_isLong_of_bounds hwidth hlow hhigh] at hlong
  | other name => exact ⟨name, rfl⟩

end EndpointBindings.Default
