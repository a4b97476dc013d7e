import EndpointBindings.Proofs.AssemblySuccess
import EndpointBindings.Proofs.DefaultFits
import EndpointBindings.Proofs.RelatedLists

/-!
The grammar of declarations: which objects declare a part or a parameter, and which defaults their
types represent. A declaration decoded from JSON is read exactly when it is one of these.
-/

namespace EndpointBindings.Grammar

open EndpointBindings.Assembly EndpointBindings.Number EndpointBindings.Json

def IsOptionalText (v : Value) : Prop := v = .null ∨ ∃ s, v = .text s

def IsFlag (v : Value) : Prop := v = .null ∨ ∃ b, v = .bool b

/-- An object, or a blank value in the place of one. -/
def IsObjectOrBlank (v : Value) : Prop := v.isBlank = true ∨ ∃ entries, v = .mapping entries

/-- The entries of an object; other values have none. -/
def entriesOf : Value → Fields
  | .mapping entries => entries
  | _ => []

/-- The texts of the options that a declaration lists. -/
def optionTexts (declaration : Fields) : List String :=
  match Value.field "options" declaration with
  | .list items => items.map Value.toText
  | _ => []

/-- What a part that is used and a parameter have in common. -/
structure IsDeclaration (declaration : Fields) : Prop where
  type : Value.field "type" declaration ≠ .null
  options : Value.field "options" declaration = .null ∨
    ∃ items, Value.field "options" declaration = .list items
  choice : (Value.field "type" declaration).toText = "enum" → optionTexts declaration ≠ []
  description : IsOptionalText (Value.field "description" declaration)

/-- The whole number that a value is, as an integer or as a float. -/
def whole? : Value → Option Int
  | .int i => some i
  | .float x => x.toInt?
  | _ => none

/-- A whole number of so many bits, with sign. -/
def IsWhole (width : Nat) (v : Value) : Prop :=
  ∃ i, whole? v = some i ∧ -2 ^ (width - 1) ≤ i ∧ i < 2 ^ (width - 1)

def IsTextList (v : Value) : Prop := (∃ s, v = .text s) ∨ ∃ texts : List String,
  v = .list (texts.map .text)

/-- The values that a type by its name represents; a choice has the texts of its options. -/
def Represents (options : List String) (v : Value) : String → Prop
  | "string" | "time" => ∃ s, v = .text s
  | "boolean" => ∃ b, v = .bool b
  | "list" => IsTextList v
  | "number" | "long" => IsWhole 64 v
  | "integer" => IsWhole 32 v
  | "short" => IsWhole 16 v
  | "byte" => IsWhole 8 v
  | "float" | "double" =>
    (∃ x, v = .float x) ∨ ∃ i, v = .int i ∧ i.natAbs < Binary64.overflowBound
  | "enum" => ∃ s ∈ options, v = .text s
  | _ => (∃ b, v = .bool b) ∨ (∃ i, v = .int i) ∨ (∃ x, v = .float x) ∨ IsTextList v

/-- A default is one of the values that the declared type represents. -/
def HasFittingDefault (declaration : Fields) : Prop :=
  Value.field "default" declaration = .null ∨
    Represents (optionTexts declaration) (Value.field "default" declaration)
      (Value.field "type" declaration).toText

section Values

variable {v : Value} {entries : Fields}

theorem isOptionalText_iff : IsOptionalText v ↔ ∃ t, v = optional t := by
  constructor
  · rintro (rfl | ⟨s, rfl⟩)
    · exact ⟨none, rfl⟩
    · exact ⟨some s, rfl⟩
  · rintro ⟨t, rfl⟩
    cases t with
    | none => exact .inl rfl
    | some s => exact .inr ⟨s, rfl⟩

theorem isFlag_iff : IsFlag v ↔ ∃ b, v = .bool b ∨ v = .null ∧ b = false := by
  constructor
  · rintro (rfl | ⟨b, rfl⟩)
    · exact ⟨false, .inr ⟨rfl, rfl⟩⟩
    · exact ⟨b, .inl rfl⟩
  · rintro ⟨b, rfl | ⟨rfl, -⟩⟩
    · exact .inr ⟨b, rfl⟩
    · exact .inl rfl

/-- What is read of an object that may be left out. -/
theorem orElse_unfold_iff (hv : Decoded v) :
    (v.orElse (.mapping [])).unfold = .mapping entries ↔
      IsObjectOrBlank v ∧ entries = entriesOf v := by
  rw [(hv.orElse .nil_mapping).unfold_eq]
  unfold Value.orElse IsObjectOrBlank
  split
  · rename_i hblank
    have hnone : entriesOf v = [] := by
      cases v with
      | mapping es => exact List.isEmpty_iff.mp hblank
      | _ => rfl
    simp [hblank, hnone, eq_comm]
  · rename_i hblank
    simp only [hblank, false_or, Bool.false_eq_true]
    constructor
    · rintro rfl
      exact ⟨⟨entries, rfl⟩, rfl⟩
    · rintro ⟨⟨es, rfl⟩, rfl⟩
      rfl

theorem decoded_entriesOf (hv : Decoded v) : Decoded (.mapping (entriesOf v)) := by
  cases hv with
  | mapping keys distinct each => exact .mapping keys distinct each
  | _ => exact .nil_mapping

end Values

section Types

variable {declaration : Fields} {field name : String} {texts : List String} {type : ValueType}

theorem options_iff (h : Decoded (.mapping declaration)) :
    options declaration field = .ok texts ↔
      (Value.field "options" declaration = .null ∨
        ∃ items, Value.field "options" declaration = .list items) ∧
      texts = optionTexts declaration := by
  have hoptions := h.field "options"
  rw [options_eq_ok, hoptions.unfold_eq]
  unfold optionTexts
  generalize Value.field "options" declaration = v at hoptions
  constructor
  · rintro (⟨rfl, rfl⟩ | ⟨items, rfl, -, rfl⟩)
    · exact ⟨.inl rfl, rfl⟩
    · exact ⟨.inr ⟨items, rfl⟩, rfl⟩
  · rintro ⟨rfl | ⟨items, rfl⟩, rfl⟩
    · exact .inl ⟨rfl, rfl⟩
    · exact .inr ⟨items, rfl, fun w hw => (hoptions.of_mem_list hw).hasLongInteger_eq_false, rfl⟩

theorem declaredType_iff (h : Decoded (.mapping declaration)) :
    declaredType declaration field = .ok type ↔
      Value.field "type" declaration ≠ .null ∧
      (Value.field "options" declaration = .null ∨
        ∃ items, Value.field "options" declaration = .list items) ∧
      ValueType.resolve? (Value.field "type" declaration).toText (optionTexts declaration) =
        some type := by
  rw [declaredType_eq_ok]
  simp only [options_iff h, (h.field "type").hasLongInteger_eq_false, true_and]
  constructor
  · rintro ⟨htype, _, ⟨hoptions, rfl⟩, hresolve⟩
    exact ⟨htype, hoptions, hresolve⟩
  · rintro ⟨htype, hoptions, hresolve⟩
    exact ⟨htype, _, ⟨hoptions, rfl⟩, hresolve⟩

theorem exists_resolve_iff :
    (∃ type, ValueType.resolve? name texts = some type) ↔ (name = "enum" → texts ≠ []) := by
  rw [← Option.isSome_iff_exists, ← Option.ne_none_iff_isSome, ne_eq, ValueType.resolve?_eq_none,
    not_and]
  rfl

theorem isDeclaration_iff (field : String) (h : Decoded (.mapping declaration)) :
    IsDeclaration declaration ↔
      (∃ type, declaredType declaration field = .ok type) ∧
        ∃ t, Value.field "description" declaration = optional t := by
  simp only [declaredType_iff h, exists_and_left, exists_resolve_iff]
  rw [← isOptionalText_iff]
  constructor
  · intro hd
    exact ⟨⟨hd.type, hd.options, hd.choice⟩, hd.description⟩
  · rintro ⟨⟨htype, hoptions, hchoice⟩, hdescription⟩
    exact ⟨htype, hoptions, hchoice, hdescription⟩

end Types

section Defaults

variable {v : Value} {expected name : String} {texts : List String} {type : ValueType}

theorem exists_fitText_iff : (∃ d, Default.fitText expected v = .ok d) ↔ ∃ s, v = .text s := by
  simp only [Default.fitText_eq_ok]
  exact ⟨fun ⟨_, s, hv, _⟩ => ⟨s, hv⟩, fun ⟨s, hv⟩ => ⟨_, s, hv, rfl⟩⟩

theorem exists_fitFlag_iff : (∃ d, Default.fitFlag expected v = .ok d) ↔ ∃ b, v = .bool b := by
  simp only [Default.fitFlag_eq_ok]
  exact ⟨fun ⟨_, b, hv, _⟩ => ⟨b, hv⟩, fun ⟨b, hv⟩ => ⟨_, b, hv, rfl⟩⟩

theorem exists_fitChoice_iff {options : Options} :
    (∃ d, Default.fitChoice expected options v = .ok d) ↔ ∃ s ∈ options.texts, v = .text s := by
  simp only [Default.fitChoice_eq_ok]
  exact ⟨fun ⟨_, s, hs, hv, _⟩ => ⟨s, hs, hv⟩, fun ⟨s, hs, hv⟩ => ⟨_, s, hs, hv, rfl⟩⟩

theorem exists_fitList_iff (hv : Decoded v) :
    (∃ d, Default.fitList expected v = .ok d) ↔ IsTextList v := by
  simp only [fitList_eq_ok, hv.unfold_eq, IsTextList]
  constructor
  · rintro ⟨d, texts, -, hlist | htuple | ⟨s, -, hs⟩⟩
    · exact .inr ⟨texts, hlist⟩
    · rw [htuple] at hv
      cases hv
    · exact .inl ⟨s, hs⟩
  · rintro (⟨s, hs⟩ | ⟨texts, hlist⟩)
    · exact ⟨_, [s], rfl, .inr (.inr ⟨s, rfl, hs⟩)⟩
    · exact ⟨_, texts, rfl, .inl hlist⟩

theorem exists_fitOther_iff (hv : Decoded v) : (∃ d, Default.fitOther expected v = .ok d) ↔
    (∃ b, v = .bool b) ∨ (∃ i, v = .int i) ∨ (∃ x, v = .float x) ∨ IsTextList v := by
  cases hv with
  | bool | int | float | text => simp [Default.fitOther, IsTextList]
  | null => simp [Default.fitOther, exists_fitList_iff .null]
  | list each => simp [Default.fitOther, exists_fitList_iff (.list each)]
  | mapping keys distinct each =>
      simp [Default.fitOther, exists_fitList_iff (.mapping keys distinct each)]

theorem exists_fitWidth_iff {width : Nat} {i : Int} :
    (∃ d, Default.fitWidth expected width i = .ok d) ↔
      -2 ^ (width - 1) ≤ i ∧ i < 2 ^ (width - 1) := by
  have hbounds : NumberKind.bounds width = (-2 ^ (width - 1), 2 ^ (width - 1) - 1) := by
    simp [NumberKind.bounds]
  simp only [Default.fitWidth_eq_ok, hbounds, exists_eq_left]
  omega

theorem exists_fitNumber_whole_iff {kind : NumberKind} {width : Nat}
    (hkind : kind.width? = some width) :
    (∃ d, Default.fitNumber expected kind v = .ok d) ↔ IsWhole width v := by
  unfold Default.fitNumber IsWhole
  rw [hkind]
  cases v with
  | int i => simp [whole?, exists_fitWidth_iff]
  | float x =>
      cases hx : x.toInt? with
      | none => simp [whole?, hx, Default.mismatch]
      | some i => simp [whole?, hx, exists_fitWidth_iff]
  | _ => simp [whole?, Default.mismatch]

theorem exists_fitNumber_fraction_iff {kind : NumberKind} (hkind : kind.width? = none) :
    (∃ d, Default.fitNumber expected kind v = .ok d) ↔
      (∃ x, v = .float x) ∨ ∃ i, v = .int i ∧ i.natAbs < Binary64.overflowBound := by
  unfold Default.fitNumber
  rw [hkind]
  cases v with
  | int i =>
      cases hi : Binary64.ofInt? i with
      | none => simpa [hi] using Binary64.ofInt?_eq_none_iff.mp hi
      | some x =>
          have hbelow : ¬Binary64.overflowBound ≤ i.natAbs := by
            rw [← Binary64.ofInt?_eq_none_iff, hi]
            simp
          simpa [hi] using hbelow
  | float x => simp
  | _ => simp [Default.mismatch]

/-- A default fits exactly the values that its type represents. -/
theorem exists_fit_iff (hv : Decoded v) (htype : ValueType.resolve? name texts = some type) :
    (∃ d, Default.fit type v = .ok d) ↔ Represents texts v name := by
  unfold Represents
  split
  case h_12 =>
    simp only [ValueType.resolve?, ValueType.choiceName, if_true, Option.map_eq_some_iff,
      Options.ofList?] at htype
    obtain ⟨options, hoptions, rfl⟩ := htype
    split at hoptions
    · simp at hoptions
    · obtain rfl := Option.some.inj hoptions
      exact exists_fitChoice_iff
  case h_13 hstring htime hboolean hlist hnumber hlong hinteger hshort hbyte hfloat hdouble henum =>
    have hother : type = .other name := by
      have hnamed : ValueType.named.lookup name = none := by
        simp only [ValueType.named, List.lookup_eq_none_iff, List.forall_mem_cons, bne_iff_ne,
          ne_eq]
        exact ⟨hstring, hboolean, htime, hlist, hnumber, hlong, hinteger, hshort, hbyte, hfloat,
          hdouble, by simp⟩
      have hchoice : ¬name = ValueType.choiceName := henum
      rw [ValueType.resolve?, if_neg hchoice, hnamed] at htype
      exact (Option.some.inj htype).symm
    subst hother
    exact exists_fitOther_iff hv
  all_goals
    obtain rfl := Option.some.inj htype
    simp only [Default.fit]
  · exact exists_fitText_iff
  · exact exists_fitText_iff
  · exact exists_fitFlag_iff
  · exact exists_fitList_iff hv
  · exact exists_fitNumber_whole_iff rfl
  · exact exists_fitNumber_whole_iff rfl
  · exact exists_fitNumber_whole_iff rfl
  · exact exists_fitNumber_whole_iff rfl
  · exact exists_fitNumber_whole_iff rfl
  · exact exists_fitNumber_fraction_iff rfl
  · exact exists_fitNumber_fraction_iff rfl

end Defaults

end EndpointBindings.Grammar
