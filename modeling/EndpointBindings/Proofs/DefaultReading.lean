import EndpointBindings.Proofs.DocumentGrammar

/-!
Defaults as they are asked for. A type takes a value as its default exactly when the value is one of
those that the type stands for; such a default is read back in the shapes of its tag and in no
other, and it is taken again as it is stored.
-/

namespace EndpointBindings.Default

open EndpointBindings.Assembly EndpointBindings.Grammar EndpointBindings.Json
open EndpointBindings.Number

/-- The values that a type takes as a default, where numbers are whole. -/
def Takes : ValueType → Value → Prop
  | .string, v | .time, v => ∃ s, v = .text s
  | .choice options, v => ∃ s ∈ options.texts, v = .text s
  | .boolean, v => ∃ b, v = .bool b
  | .number kind, v => ∃ width, kind.width? = some width ∧ IsWhole width v
  | .list, v => IsTextList v
  | .other _, v => (∃ b, v = .bool b) ∨ (∃ i, v = .int i) ∨ (∃ x, v = .float x) ∨ IsTextList v

/-- What is kept of a value that a type takes: of a whole number the integer, of a text where a list
is declared the list of it, and any other value as it is. -/
def kept : ValueType → Value → Value
  | .number _, v => (whole? v).elim v .int
  | .list, .text s => .list [.text s]
  | _, v => v

/-- The shapes that go with the tag of a default. -/
def shapes : Default → List Shape
  | text _ => [.text]
  | flag _ => [.flag]
  | integer _ => [.integer]
  | float _ => [.float]
  | list _ => [.list, .tuple]

/-- A value as it is had in a shape: a list is a tuple for those who ask for one. -/
def inShape : Shape → Value → Value
  | .tuple, .list items => .tuple items
  | _, v => v

/-- The value of a default, a list being one that can be changed. -/
def listed : Default → Value
  | list items => .list (items.map .text)
  | d => d.toValue

variable {type : ValueType} {kind : NumberKind} {width : Nat} {v : Value} {expected : String}
  {d : Default} {shape : Shape} {p : Param} {required : Bool} {description : Option String}

section Shapes

/-- A default is read in the shapes of its tag. -/
theorem readAs_of_mem (h : shape ∈ d.shapes) : d.readAs shape = .ok (inShape shape d.listed) := by
  cases d with
  | list items =>
      simp only [shapes, List.mem_cons, List.not_mem_nil, or_false] at h
      rcases h with rfl | rfl <;> rfl
  | _ =>
      obtain rfl := List.mem_singleton.mp h
      rfl

theorem readAs_of_notMem (h : shape ∉ d.shapes) :
    d.readAs shape = .error ⟨shape.name, d.tag, none⟩ := by
  cases d <;> cases shape <;> simp [shapes] at h <;> rfl

end Shapes

section Fitting

theorem fitNumber_of_whole {i : Int} (hwidth : kind.width? = some width) (hv : whole? v = some i) :
    fitNumber expected kind v = fitWidth expected width i := by
  cases v with
  | int j =>
      obtain rfl := Option.some.inj hv
      simp [fitNumber, hwidth]
  | float x =>
      have hx : x.toInt? = some i := hv
      simp [fitNumber, hwidth, hx]
  | _ => cases hv

theorem isSome_width? (h : ¬IsFractional (.number kind)) : ∃ width, kind.width? = some width := by
  cases hwidth : kind.width? with
  | none => exact absurd ⟨kind, rfl, hwidth⟩ h
  | some width => exact ⟨width, rfl⟩

/-- A type takes the values that fit it. -/
theorem exists_fit_iff_takes (hv : Decoded v) (htype : ¬IsFractional type) :
    (∃ d, fit type v = .ok d) ↔ Takes type v := by
  cases type with
  | string => exact exists_fitText_iff
  | time => exact exists_fitText_iff
  | boolean => exact exists_fitFlag_iff
  | list => exact exists_fitList_iff hv
  | choice options => exact exists_fitChoice_iff
  | other name => exact exists_fitOther_iff hv
  | number kind =>
      obtain ⟨width, hwidth⟩ := isSome_width? htype
      have hfit : (∃ d, fit (.number kind) v = .ok d) ↔ IsWhole width v :=
        exists_fitNumber_whole_iff hwidth
      rw [hfit, Takes]
      simp [hwidth]

theorem listed_of_fitList (hv : Decoded v) (h : fitList expected v = .ok d) :
    d.listed = kept .list v := by
  obtain ⟨texts, rfl, hlist | htuple | ⟨s, rfl, hs⟩⟩ := fitList_eq_ok.mp h
  · obtain rfl := hv.unfold_eq.symm.trans hlist
    rfl
  · obtain rfl := hv.unfold_eq.symm.trans htuple
    cases hv
  · obtain rfl := hv.unfold_eq.symm.trans hs
    rfl

theorem listed_of_fitOther {name : String} (hv : Decoded v)
    (h : fitOther expected v = .ok d) : d.listed = kept (.other name) v := by
  cases hv with
  | bool | int | float | text =>
      obtain rfl := Except.ok.inj h
      rfl
  | null => exact listed_of_fitList .null h
  | list each => exact listed_of_fitList (.list each) h
  | mapping keys distinct each => exact listed_of_fitList (.mapping keys distinct each) h

/-- A default is what is kept of the value. -/
theorem listed_of_fit (hv : Decoded v) (htype : ¬IsFractional type) (h : fit type v = .ok d) :
    d.listed = kept type v := by
  cases type with
  | string =>
      obtain ⟨s, rfl, rfl⟩ := fitText_eq_ok.mp h
      rfl
  | time =>
      obtain ⟨s, rfl, rfl⟩ := fitText_eq_ok.mp h
      rfl
  | boolean =>
      obtain ⟨b, rfl, rfl⟩ := fitFlag_eq_ok.mp h
      rfl
  | choice options =>
      obtain ⟨s, -, rfl, rfl⟩ := fitChoice_eq_ok.mp h
      rfl
  | list => exact listed_of_fitList hv h
  | other name => exact listed_of_fitOther hv h
  | number kind =>
      obtain ⟨width, hwidth⟩ := isSome_width? htype
      obtain ⟨i, hi, -⟩ := (exists_fitNumber_whole_iff hwidth).mp ⟨d, h⟩
      rw [fit, fitNumber_of_whole hwidth hi] at h
      obtain ⟨rfl, -⟩ := fitWidth_eq_ok.mp h
      simp [kept, hi, listed, toValue]

/-- A default that fits a type is taken by it as it is stored. -/
theorem fit_toValue (h : Fits type d) : fit type d.toValue = .ok d := by
  have hlist : ∀ expected items, fitList expected (list items).toValue = .ok (list items) :=
    fun _ items => fitList_eq_ok.mpr ⟨items, rfl, .inr (.inl rfl)⟩
  cases h with
  | string s => rfl
  | time s => rfl
  | boolean b => rfl
  | list items => exact hlist _ items
  | choice hs => exact fitChoice_eq_ok.mpr ⟨_, hs, rfl, rfl⟩
  | @integer kind width i hwidth hlow hhigh =>
      have hi : whole? (.int i) = some i := rfl
      rw [fit, toValue, fitNumber_of_whole hwidth hi]
      exact fitWidth_eq_ok.mpr ⟨rfl, hlow, hhigh⟩
  | float hwidth x => simp [fit, fitNumber, toValue, hwidth]
  | other name d =>
      cases d with
      | list items => exact hlist _ items
      | _ => rfl

end Fitting

section Parameters

theorem declare_of_fit (hnull : v ≠ .null) (h : fit type v = .ok d) :
    Param.declare type required v description = .ok ⟨type, required, some d, description⟩ :=
  declare_eq_ok.mpr ⟨rfl, rfl, rfl, .inr ⟨hnull, d, rfl, h⟩⟩

theorem declare_of_misfit {m : Misfit} (hnull : v ≠ .null) (h : fit type v = .error m) :
    Param.declare type required v description = .error m := by
  rw [Param.declare, if_neg fun hv => hnull (isNull_iff.mp hv), h]
  rfl

/-- A parameter is declared with a value that its type takes; with any other value the types do not
match. A default that was declared is read in the shapes of its tag as what is kept of the value, in
no other shape, and is taken again as it is stored. -/
theorem declare_keeps_taken (hv : Decoded v) (hnull : v ≠ .null) (htype : ¬IsFractional type)
    (required : Bool) (description : Option String) :
    ((∃ p, Param.declare type required v description = .ok p) ↔ Takes type v) ∧
      (¬Takes type v → ∃ m, Param.declare type required v description = .error (.mismatch m)) ∧
      ∀ p, Param.declare type required v description = .ok p → ∃ d, p.default = some d ∧
        (∀ shape ∈ d.shapes, p.readDefault shape = .ok (inShape shape (kept type v))) ∧
        (∀ shape ∉ d.shapes, p.readDefault shape = .error ⟨shape.name, d.tag, none⟩) ∧
        fit type d.toValue = .ok d := by
  have htakes := exists_fit_iff_takes hv htype
  cases hfit : fit type v with
  | error m =>
      have hdeclare : Param.declare type required v description = .error m :=
        declare_of_misfit hnull hfit
      have hnot : ¬Takes type v := by simp [← htakes, hfit]
      refine ⟨by simp [hdeclare, hnot], fun _ => ?_, fun p hp => ?_⟩
      · rcases fit_eq_error hv hfit with ⟨t, rfl⟩ | ⟨-, hfractional, -⟩
        · exact ⟨t, hdeclare⟩
        · exact absurd hfractional htype
      · cases hdeclare.symm.trans hp
  | ok d =>
      have hdeclare : Param.declare type required v description =
          .ok ⟨type, required, some d, description⟩ := declare_of_fit hnull hfit
      have htaken : Takes type v := htakes.mp ⟨d, hfit⟩
      refine ⟨⟨fun _ => htaken, fun _ => ⟨_, hdeclare⟩⟩, fun hnot => absurd htaken hnot, ?_⟩
      intro p hp
      obtain rfl := Except.ok.inj (hdeclare.symm.trans hp)
      refine ⟨d, rfl, fun shape hshape => ?_, fun shape hshape => readAs_of_notMem hshape,
        fit_toValue (fits_of_fit hfit)⟩
      rw [← listed_of_fit hv htype hfit]
      exact readAs_of_mem hshape

/-- The least whole number of a byte, given as a fraction. -/
theorem declare_keeps_taken_byte :
    ∃ p d, Param.declare (.number .byte) true (.float (.finite true (2 ^ 52) (-45))) none = .ok p ∧
      p.default = some d ∧ p.readDefault .integer = .ok (.int (-128)) ∧
      p.readDefault .float = .error ⟨"float", "int", none⟩ ∧
      fit (.number .byte) d.toValue = .ok d := by
  have hdecoded : Decoded (.float (.finite true (2 ^ 52) (-45))) := .float ⟨by decide, by decide⟩
  have htype : ¬IsFractional (.number .byte) := by
    rintro ⟨kind, hkind, hwidth⟩
    cases hkind
    cases hwidth
  obtain ⟨-, -, hreads⟩ := declare_keeps_taken hdecoded (by simp) htype true none
  have hdeclared : Param.declare (.number .byte) true (.float (.finite true (2 ^ 52) (-45))) none =
      .ok ⟨.number .byte, true, some (.integer (-128)), none⟩ := by decide +kernel
  obtain ⟨d, hd, hshapes, hothers, hagain⟩ := hreads _ hdeclared
  obtain rfl := Option.some.inj hd
  exact ⟨_, _, hdeclared, rfl, hshapes .integer (by decide), hothers .float (by decide), hagain⟩

end Parameters

end EndpointBindings.Default
