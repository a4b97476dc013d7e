import EndpointBindings.Proofs.DocumentGrammar

/-!
Defaults of a choice. Options are kept as texts, whatever they are in the document, but a default is
not made a text first: of the options of a choice those that are texts are defaults of it, and
numbers and flags are not, though their texts are options.
-/

namespace EndpointBindings.Assembly

open EndpointBindings.Json EndpointBindings.Grammar

section Choices

variable {name field s : String} {fields : Fields} {items : List Value} {v : Value}
  {options : Options} {required : Bool} {description : Option String}

theorem declaredType_choice (hfields : Decoded (.mapping fields))
    (htype : Value.field "type" fields = .text "enum")
    (hoptions : Value.field "options" fields = .list items)
    (htexts : options.texts = items.map Value.toText) :
    declaredType fields field = .ok (.choice options) := by
  have hlisted : optionTexts fields = options.texts := by
    rw [optionTexts, hoptions]
    exact htexts.symm
  have hresolve : ValueType.resolve? "enum" options.texts = some (.choice options) := by
    simp [ValueType.resolve?, ValueType.choiceName, Options.ofList?, options.nonempty]
  refine (declaredType_iff hfields).mpr ⟨by simp [htype], .inr ⟨items, hoptions⟩, ?_⟩
  rw [htype, hlisted]
  exact hresolve

/-- A declaration that is at fault nowhere else is a parameter as far as its default is one. -/
theorem param_eq_declare {type : ValueType}
    (htype : declaredType fields ("url.params." ++ name) = .ok type)
    (hrequired : Value.field "required" fields = .bool required ∨
      Value.field "required" fields = .null ∧ required = false)
    (hdescription : Value.field "description" fields = optional description) :
    param name (.mapping fields) =
      (Param.declare type required (Value.field "default" fields) description).mapError misfit := by
  have hmapping : requireMapping (.mapping fields) ("url.params." ++ name) = .ok fields :=
    requireMapping_eq_ok.mpr rfl
  have hflag : flag (Value.field "required" fields) ("url.params." ++ name ++ ".required") =
      .ok required := flag_eq_ok.mpr hrequired
  have htext : optionalText (Value.field "description" fields)
      ("url.params." ++ name ++ ".description") = .ok description :=
    optionalText_eq_ok.mpr hdescription
  rw [param, hmapping]
  simp only [bind, Except.bind, htype, hflag, htext]

theorem declare_choice_text (hs : s ∈ options.texts) :
    Param.declare (.choice options) required (.text s) description =
      .ok ⟨.choice options, required, some (.text s), description⟩ :=
  declare_eq_ok.mpr ⟨rfl, rfl, rfl, .inr ⟨by simp, .text s, rfl,
    Default.fitChoice_eq_ok.mpr ⟨s, hs, rfl, rfl⟩⟩⟩

/-- What is no text is no default of a choice, whether its text is an option or not. -/
theorem declare_choice_of_not_text (hnull : v ≠ .null) (htext : ∀ s, v ≠ .text s) :
    Param.declare (.choice options) required v description =
      .error (.mismatch ⟨(ValueType.choice options).label, v.kindName, none⟩) := by
  have hmisfit : Default.fit (.choice options) v =
      .error (.mismatch ⟨(ValueType.choice options).label, v.kindName, none⟩) := by
    rw [Default.fit, Default.fitChoice]
    · rfl
    · exact htext
  rw [Param.declare, if_neg fun h => hnull (isNull_iff.mp h), hmisfit]
  rfl

/-- An option of a choice is a default of it exactly if it is a text, and is kept as that text. An
option that is none does not match the type, under the name of its own kind. -/
theorem option_is_default_iff_text (hfields : Decoded (.mapping fields))
    (htype : Value.field "type" fields = .text "enum")
    (hoptions : Value.field "options" fields = .list items)
    (hmem : Value.field "default" fields ∈ items) (hnull : Value.field "default" fields ≠ .null)
    (hrequired : IsFlag (Value.field "required" fields))
    (hdescription : IsOptionalText (Value.field "description" fields)) (name : String) :
    ∃ options : Options, options.texts = items.map Value.toText ∧
      (Value.field "default" fields).toText ∈ options.texts ∧
      (∀ s, Value.field "default" fields = .text s → ∃ p, param name (.mapping fields) = .ok p ∧
        p.type = .choice options ∧ p.default = some (.text s)) ∧
      ((∀ s, Value.field "default" fields ≠ .text s) → param name (.mapping fields) =
        fail (.typeMismatch ⟨(ValueType.choice options).label,
          (Value.field "default" fields).kindName, none⟩)) := by
  obtain ⟨required, hrequired⟩ := isFlag_iff.mp hrequired
  obtain ⟨description, hdescription⟩ := isOptionalText_iff.mp hdescription
  have hlisted : (Value.field "default" fields).toText ∈ items.map Value.toText :=
    List.mem_map_of_mem hmem
  let options : Options := ⟨items.map Value.toText, List.ne_nil_of_mem hlisted⟩
  have hdeclared : declaredType fields ("url.params." ++ name) = .ok (.choice options) :=
    declaredType_choice hfields htype hoptions rfl
  have hdeclare := param_eq_declare hdeclared hrequired hdescription
  refine ⟨options, rfl, hlisted, fun s hs => ?_, fun htext => ?_⟩
  · rw [hs] at hlisted hdeclare
    rw [declare_choice_text hlisted] at hdeclare
    exact ⟨_, hdeclare, rfl, rfl⟩
  · rw [hdeclare, declare_choice_of_not_text hnull htext]
    rfl

end Choices

/-- A choice of a level by a word, a number or a flag. -/
def levelChoice (default : Value) : Fields :=
  [(.text "type", .text "enum"), (.text "options", .list [.text "all", .int 1, .bool true, .null]),
    (.text "default", default)]

theorem decoded_levelChoice {default : Value} (h : Decoded default) :
    Decoded (.mapping (levelChoice default)) := by
  have hone : Decoded (.int 1) := .int (by decide +kernel)
  have hlevels : Decoded (.list [.text "all", .int 1, .bool true, .null]) :=
    .list (by simp [Decoded.text, Decoded.bool, Decoded.null, hone])
  exact .mapping (by simp [levelChoice]) (by simp [levelChoice])
    (by simp [levelChoice, Decoded.text, hlevels, h])

theorem option_is_default_levels :
    (∃ p, param "level" (.mapping (levelChoice (.text "all"))) = .ok p ∧
      p.default = some (.text "all")) ∧
    param "level" (.mapping (levelChoice (.bool true))) =
      fail (.typeMismatch ⟨"enum[all|1|True|None]", "boolean", none⟩) := by
  have hword := option_is_default_iff_text (decoded_levelChoice (.text "all")) rfl rfl
    List.mem_cons_self Value.noConfusion (.inl rfl) (.inl rfl) "level"
  have hflag := option_is_default_iff_text (decoded_levelChoice (.bool true)) rfl rfl
    (.tail _ (.tail _ (.head _))) Value.noConfusion (.inl rfl) (.inl rfl) "level"
  obtain ⟨_, -, -, haccepted, -⟩ := hword
  obtain ⟨p, hp, -, hdefault⟩ := haccepted "all" rfl
  obtain ⟨options, htexts, -, -, hrefused⟩ := hflag
  refine ⟨⟨p, hp, hdefault⟩, (hrefused fun s => Value.noConfusion).trans ?_⟩
  rw [ValueType.label, htexts]
  rfl

/-- A number among the options is no default, though its text is one of the options; and a text
among them is none where the declaration is at fault elsewhere. -/
theorem numbered_option_is_no_default :
    Value.field "type" (levelChoice (.int 1)) = .text "enum" ∧
      Value.field "options" (levelChoice (.int 1)) =
        .list [.text "all", .int 1, .bool true, .null] ∧
      Value.field "default" (levelChoice (.int 1)) = .int 1 ∧
      (¬∃ p, param "level" (.mapping (levelChoice (.int 1))) = .ok p) ∧
      ¬∃ p, param "level" (.mapping ((.text "required", .int 1) :: levelChoice (.text "all"))) =
        .ok p := by
  have hnumber : isOkWith (fun _ => true) (param "level" (.mapping (levelChoice (.int 1)))) =
      false := by decide +kernel
  have hrequired : isOkWith (fun _ => true)
      (param "level" (.mapping ((.text "required", .int 1) :: levelChoice (.text "all")))) =
        false := by decide +kernel
  refine ⟨rfl, rfl, rfl, ?_, ?_⟩
  · rintro ⟨p, hp⟩
    rw [hp] at hnumber
    cases hnumber
  · rintro ⟨p, hp⟩
    rw [hp] at hrequired
    cases hrequired

end EndpointBindings.Assembly
