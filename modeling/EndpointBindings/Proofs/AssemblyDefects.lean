import EndpointBindings.Assembly
import EndpointBindings.Proofs.JsonDecoded

/-!
Which JSON documents end a run instead of being at fault. Each step of the assembly reports what is
wrong with a decoded document, but for one conversion: an integer default past every number, under
a fractional type, is a defect.
-/

namespace EndpointBindings.Assembly

open EndpointBindings.Json EndpointBindings.Number

variable {α β : Type}

/-- A computation that may find fault with a document but does not end the run. -/
def Reports (x : Except Failure α) : Prop := ∀ d, x ≠ .error (.defect d)

theorem reports_ok (a : α) : Reports (.ok a : Except Failure α) := by
  simp [Reports]

theorem reports_pure (a : α) : Reports (pure a : Except Failure α) := reports_ok a

theorem reports_fail (error : SpecError) : Reports (fail error : Except Failure α) := by
  simp [Reports, fail]

theorem reports_invalid (fault : DocumentFault) : Reports (invalid fault : Except Failure α) :=
  reports_fail _

theorem Reports.bind {x : Except Failure α} {f : α → Except Failure β} (hx : Reports x)
    (hf : ∀ a, x = .ok a → Reports (f a)) : Reports (x >>= f) := by
  intro d h
  rcases bind_eq_error.mp h with h | ⟨a, ha, h⟩
  · exact hx d h
  · exact hf a ha d h

theorem Reports.bind_eq_defect {x : Except Failure α} {f : α → Except Failure β} {d : Defect}
    (hx : Reports x) :
    (x >>= f) = .error (.defect d) ↔ ∃ a, x = .ok a ∧ f a = .error (.defect d) := by
  rw [bind_eq_error]
  exact or_iff_right (hx d)

theorem Reports.mapM {f : α → Except Failure β} {l : List α} (h : ∀ a ∈ l, Reports (f a)) :
    Reports (l.mapM f) := by
  induction l with
  | nil => exact reports_pure _
  | cons a rest ih =>
      rw [List.mapM_cons]
      refine (h a List.mem_cons_self).bind fun b _ => ?_
      exact (ih fun a ha => h a (List.mem_cons_of_mem _ ha)).bind fun _ _ => reports_pure _

section Steps

variable {v : Value} {field : String} {entries declaration parts url : Fields}

theorem reports_requireMapping : Reports (requireMapping v field) := by
  unfold requireMapping
  split
  · exact reports_ok _
  · exact reports_invalid _

theorem reports_requireList : Reports (requireList v field) := by
  unfold requireList
  split
  · exact reports_ok _
  · exact reports_invalid _

/-- What is required to be an object is one. -/
theorem decoded_of_requireMapping (hv : Decoded v) (h : requireMapping v field = .ok entries) :
    Decoded (.mapping entries) := by
  unfold requireMapping at h
  rw [hv.unfold_eq] at h
  split at h
  · obtain rfl := by simpa using h
    exact hv
  · simp [invalid, fail] at h

theorem decoded_of_requireList {items : List Value} (hv : Decoded v)
    (h : requireList v field = .ok items) : ∀ w ∈ items, Decoded w := by
  unfold requireList at h
  rw [hv.unfold_eq] at h
  split at h
  · obtain rfl := by simpa using h
    exact fun w hw => hv.of_mem_list hw
  · simp [invalid, fail] at h

theorem reports_optionalText : Reports (optionalText v field) := by
  unfold optionalText
  split
  · exact reports_ok _
  · exact reports_ok _
  · exact reports_invalid _

theorem reports_textOf (hv : Decoded v) : Reports (textOf v) := by
  simp [textOf, hv.shownText_eq, reports_ok]

theorem reports_flag (hv : Decoded v) : Reports (flag v field) := by
  unfold flag
  split
  · exact reports_ok _
  · exact reports_ok _
  · have hshown : shown v = .ok v.display := by simp [shown, hv.shown_eq]
    exact (hshown ▸ reports_ok _).bind fun _ _ => reports_invalid _

theorem reports_options (h : Decoded (.mapping declaration)) :
    Reports (options declaration field) := by
  unfold options
  split
  · exact reports_ok _
  · refine reports_requireList.bind fun items hitems => Reports.mapM fun w hw => ?_
    exact reports_textOf (decoded_of_requireList (h.field "options") hitems w hw)

theorem reports_resolveType {name : String} {texts : List String} :
    Reports (resolveType name texts) := by
  unfold resolveType
  split
  · exact reports_ok _
  · exact reports_fail _

theorem reports_declaredType (h : Decoded (.mapping declaration)) :
    Reports (declaredType declaration field) := by
  unfold declaredType
  split
  · exact reports_fail _
  · refine (reports_textOf (h.field "type")).bind fun name _ => ?_
    exact (reports_options h).bind fun _ _ => reports_resolveType

theorem reports_part {raw : String} {group : List Char} (h : Decoded (.mapping parts)) :
    Reports (part parts raw group) := by
  unfold part
  dsimp only
  split
  · exact reports_invalid _
  · split
    · exact reports_fail _
    · refine reports_requireMapping.bind fun declaration hdeclaration => ?_
      have hdecoded := decoded_of_requireMapping (h.field _) hdeclaration
      refine (reports_declaredType hdecoded).bind fun _ _ => ?_
      exact reports_optionalText.bind fun _ _ => reports_pure _

theorem reports_segment {raw : String} {chunk : PathTemplate.Chunk}
    (h : Decoded (.mapping parts)) : Reports (segment parts raw chunk) := by
  unfold segment
  split
  · split
    · exact reports_invalid _
    · exact reports_ok _
  · exact (reports_part h).bind fun _ _ => reports_pure _

theorem reports_pathTemplates {seen : List String} {raws : List Value}
    (h : Decoded (.mapping parts)) : Reports (pathTemplates parts seen raws) := by
  fun_induction pathTemplates parts seen raws with
  | case1 => exact reports_ok _
  | case2 seen raw rest hseen ih => exact ih
  | case3 seen raw rest hseen ih =>
      refine Reports.bind ?_ fun _ _ => ih.bind fun _ _ => reports_pure _
      exact (Reports.mapM fun _ _ => reports_segment h).bind fun _ _ => reports_pure _
  | case4 => exact reports_invalid _

theorem reports_paths (h : Decoded (.mapping parts)) : Reports (paths url parts) := by
  unfold paths
  refine reports_requireList.bind fun raws _ => ?_
  split
  · exact reports_fail _
  · exact reports_pathTemplates h

theorem reports_verb (hv : Decoded v) : Reports (verb v) := by
  unfold verb
  split
  · split
    · exact reports_ok _
    · exact reports_fail _
  · exact (reports_textOf hv).bind fun _ _ => reports_fail _

theorem reports_verbs (hv : Decoded v) : Reports (verbs v) := by
  unfold verbs
  split
  · exact reports_fail _
  · refine reports_requireList.bind fun tokens htokens => ?_
    refine Reports.bind (Reports.mapM fun w hw => ?_) fun _ _ => reports_pure _
    exact reports_verb (decoded_of_requireList hv htokens w hw)

theorem reports_documentation : Reports (documentation v) := by
  unfold documentation
  split <;> exact reports_optionalText

theorem reports_body (hv : Decoded v) : Reports (body v) := by
  unfold body
  split
  · exact reports_ok _
  · refine reports_requireMapping.bind fun fields hfields => ?_
    have hdecoded := decoded_of_requireMapping hv hfields
    refine (reports_flag (hdecoded.field _)).bind fun _ _ => ?_
    refine reports_optionalText.bind fun _ _ => ?_
    exact reports_optionalText.bind fun _ _ => reports_pure _

end Steps

section Unwrapping

variable {document fields : Fields} {name : Option String}

theorem reports_unwrap (h : Decoded (.mapping document)) : Reports (unwrap document) := by
  unfold unwrap
  split
  · split
    · exact reports_ok _
    · exact reports_ok _
    · exact reports_invalid _
  · split
    · obtain ⟨s, rfl⟩ := h.key_of_mem List.mem_cons_self
      split
      · exact reports_ok _
      · rename_i hkey
        exact absurd rfl (hkey s)
      · exact reports_fail _
    · exact reports_fail _

theorem decoded_of_unwrap (h : Decoded (.mapping document))
    (hunwrap : unwrap document = .ok (name, fields)) : Decoded (.mapping fields) := by
  unfold unwrap at hunwrap
  split at hunwrap
  · split at hunwrap
    · obtain ⟨-, rfl⟩ := by simpa using hunwrap
      exact h
    · obtain ⟨-, rfl⟩ := by simpa using hunwrap
      exact h
    · simp [invalid, fail] at hunwrap
  · split at hunwrap
    · rename_i key v _
      have hv : Decoded v := h.of_mem_mapping (e := (key, v)) List.mem_cons_self
      rw [hv.unfold_eq] at hunwrap
      split at hunwrap
      · obtain ⟨-, rfl⟩ := by simpa using hunwrap
        exact hv
      · rcases bind_eq_ok.mp hunwrap with ⟨_, -, h⟩
        simp [invalid, fail] at h
      · simp [fail] at hunwrap
    · simp [fail] at hunwrap

end Unwrapping

section Defaults

variable {expected : String} {v : Value} {type : ValueType} {d : Defect}

/-- A value is past every number when it is an integer of at least the bound. -/
def BeyondNumbers (v : Value) : Prop := ∃ i, v = .int i ∧ Binary64.overflowBound ≤ i.natAbs

/-- A type of fractions. -/
def IsFractional (type : ValueType) : Prop := ∃ kind, type = .number kind ∧ kind.width? = none

/-- A value that is no default of a type for a reason that documents are told. -/
def Misfits (x : Except Misfit Default) : Prop := ∀ m, x = .error m → ∃ t, m = .mismatch t

theorem misfits_ok (a : Default) : Misfits (.ok a) := by
  simp [Misfits]

theorem misfits_mismatch {actual : String} {detail : Option String} :
    Misfits (Default.mismatch expected actual detail) := by
  simp [Misfits, Default.mismatch]

theorem misfits_fitText : Misfits (Default.fitText expected v) := by
  unfold Default.fitText
  split
  · exact misfits_ok _
  · exact misfits_mismatch

theorem misfits_fitChoice {options : Options} :
    Misfits (Default.fitChoice expected options v) := by
  unfold Default.fitChoice
  split
  · split
    · exact misfits_ok _
    · exact misfits_mismatch
  · exact misfits_mismatch

theorem misfits_fitFlag : Misfits (Default.fitFlag expected v) := by
  unfold Default.fitFlag
  split
  · exact misfits_ok _
  · exact misfits_mismatch

theorem misfits_fitList : Misfits (Default.fitList expected v) := by
  unfold Default.fitList
  split
  · exact misfits_ok _
  · split
    · exact misfits_ok _
    · exact misfits_mismatch
  · split
    · exact misfits_ok _
    · exact misfits_mismatch
  · exact misfits_mismatch

theorem misfits_fitOther : Misfits (Default.fitOther expected v) := by
  unfold Default.fitOther
  split
  case h_5 => exact misfits_fitList
  all_goals exact misfits_ok _

theorem misfits_fitWidth {width : Nat} {i : Int} (hi : isLong i = false) :
    Misfits (Default.fitWidth expected width i) := by
  unfold Default.fitWidth
  dsimp only
  split
  · exact misfits_ok _
  · rw [hi]
    exact misfits_mismatch

/-- A number is no default for a reason that documents are told, unless the type has fractions and
the number is an integer past all of them. -/
theorem fitNumber_eq_error {kind : NumberKind} (hv : Decoded v) {m : Misfit}
    (h : Default.fitNumber expected kind v = .error m) :
    (∃ t, m = .mismatch t) ∨ (m = .beyondFloat ∧ kind.width? = none ∧ BeyondNumbers v) := by
  unfold Default.fitNumber at h
  split at h
  · cases hv with
    | int short => exact .inl (misfits_fitWidth short m h)
  · split at h
    · rename_i hint
      cases hv with
      | float inRange =>
          have hshort := Binary64.not_isLong_of_toInt? inRange hint
          exact .inl (misfits_fitWidth hshort m h)
    · exact .inl (misfits_mismatch m h)
  · rename_i i hkind
    split at h
    · simp at h
    · rename_i hnone
      obtain rfl := by simpa using h
      exact .inr ⟨rfl, hkind, i, rfl, Binary64.ofInt?_eq_none_iff.mp hnone⟩
  · simp at h
  · exact .inl (misfits_mismatch m h)

theorem fit_eq_error (hv : Decoded v) {m : Misfit} (h : Default.fit type v = .error m) :
    (∃ t, m = .mismatch t) ∨ (m = .beyondFloat ∧ IsFractional type ∧ BeyondNumbers v) := by
  unfold Default.fit at h
  split at h
  · exact .inl (misfits_fitText m h)
  · exact .inl (misfits_fitText m h)
  · exact .inl (misfits_fitChoice m h)
  · exact .inl (misfits_fitFlag m h)
  · exact .inl (misfits_fitList m h)
  · rename_i kind
    exact (fitNumber_eq_error hv h).imp_right fun ⟨hm, hkind, hv⟩ => ⟨hm, ⟨kind, rfl, hkind⟩, hv⟩
  · exact .inl (misfits_fitOther m h)

theorem fit_of_beyondNumbers (htype : IsFractional type) (hv : BeyondNumbers v) :
    Default.fit type v = .error .beyondFloat := by
  obtain ⟨kind, rfl, hkind⟩ := htype
  obtain ⟨i, rfl, hi⟩ := hv
  simp [Default.fit, Default.fitNumber, hkind, Binary64.ofInt?_eq_none_iff.mpr hi]

theorem declare_eq_defect_iff {required : Bool} {description : Option String} (hv : Decoded v) :
    (Param.declare type required v description).mapError misfit = .error (.defect d) ↔
      d = .integerBeyondFloat ∧ IsFractional type ∧ BeyondNumbers v := by
  rw [mapError_eq_error]
  unfold Param.declare
  constructor
  · rintro ⟨m, h, hmisfit⟩
    split at h
    · simp at h
    · rcases bind_eq_error.mp h with h | ⟨a, -, h⟩
      · rcases fit_eq_error hv h with ⟨t, rfl⟩ | ⟨rfl, htype, hbeyond⟩
        · simp [misfit] at hmisfit
        · exact ⟨by simpa [misfit, eq_comm] using hmisfit, htype, hbeyond⟩
      · simp [pure, Except.pure] at h
  · rintro ⟨rfl, htype, hbeyond⟩
    refine ⟨.beyondFloat, ?_, rfl⟩
    have hnull : v.isNull = false := by
      obtain ⟨i, rfl, -⟩ := hbeyond
      rfl
    rw [hnull, fit_of_beyondNumbers htype hbeyond]
    rfl

end Defaults

section Parameters

variable {name : String} {v : Value} {d : Defect} {document declared fields : Fields}

/-- A declaration of a fractional type with a default past every number, and no other fault. -/
def OverflowingParam (name : String) (v : Value) : Prop :=
  ∃ declaration type required description,
    requireMapping v ("url.params." ++ name) = .ok declaration ∧
    declaredType declaration ("url.params." ++ name) = .ok type ∧
    flag (Value.field "required" declaration) ("url.params." ++ name ++ ".required") =
      .ok required ∧
    optionalText (Value.field "description" declaration)
      ("url.params." ++ name ++ ".description") = .ok description ∧
    IsFractional type ∧ BeyondNumbers (Value.field "default" declaration)

/-- Declarations of which one overflows and none in front of it is at fault. -/
def OverflowingParams (declared : Fields) : Prop :=
  ∃ before key v after, declared = before ++ (.text key, v) :: after ∧
    (∃ ps, params before = .ok ps) ∧ OverflowingParam key v

/-- The declarations of parameters in a document that is not at fault in front of them. -/
def Declares (document declared : Fields) : Prop :=
  ∃ name fields methods url parts templates,
    unwrap document = .ok (name, fields) ∧
    verbs (Value.field "methods" fields) = .ok methods ∧
    requireMapping (Value.field "url" fields) "url" = .ok url ∧
    requireMapping ((Value.field "parts" url).orElse (.mapping [])) "url.parts" = .ok parts ∧
    paths url parts = .ok templates ∧
    requireMapping ((Value.field "params" url).orElse (.mapping [])) "url.params" = .ok declared

/-- A document with an integer default that no number of its fractional type reaches, in which
nothing is at fault up to there. -/
def Overflows (document : Fields) : Prop :=
  ∃ declared, Declares document declared ∧ OverflowingParams declared

theorem param_eq_defect_iff (hv : Decoded v) :
    param name v = .error (.defect d) ↔ d = .integerBeyondFloat ∧ OverflowingParam name v := by
  unfold param OverflowingParam
  dsimp only
  constructor
  · intro h
    obtain ⟨declaration, hdeclaration, h⟩ := reports_requireMapping.bind_eq_defect.mp h
    have hdecoded := decoded_of_requireMapping hv hdeclaration
    obtain ⟨type, htype, h⟩ := (reports_declaredType hdecoded).bind_eq_defect.mp h
    obtain ⟨required, hrequired, h⟩ := (reports_flag (hdecoded.field _)).bind_eq_defect.mp h
    obtain ⟨description, hdescription, h⟩ := reports_optionalText.bind_eq_defect.mp h
    obtain ⟨hd, hfractional, hbeyond⟩ := (declare_eq_defect_iff (hdecoded.field _)).mp h
    exact ⟨hd, declaration, type, required, description, hdeclaration, htype, hrequired,
      hdescription, hfractional, hbeyond⟩
  · rintro ⟨hd, declaration, type, required, description, hdeclaration, htype, hrequired,
      hdescription, hfractional, hbeyond⟩
    have hdecoded := decoded_of_requireMapping hv hdeclaration
    refine bind_eq_error.mpr (.inr ⟨declaration, hdeclaration, ?_⟩)
    refine bind_eq_error.mpr (.inr ⟨type, htype, ?_⟩)
    refine bind_eq_error.mpr (.inr ⟨required, hrequired, ?_⟩)
    refine bind_eq_error.mpr (.inr ⟨description, hdescription, ?_⟩)
    exact (declare_eq_defect_iff (hdecoded.field _)).mpr ⟨hd, hfractional, hbeyond⟩

theorem overflowingParams_cons {rest : Fields} :
    OverflowingParams ((.text name, v) :: rest) ↔
      OverflowingParam name v ∨ (∃ p, param name v = .ok p) ∧ OverflowingParams rest := by
  constructor
  · rintro ⟨before, key, w, after, hsplit, ⟨ps, hps⟩, hover⟩
    cases before with
    | nil =>
        obtain ⟨⟨rfl, rfl⟩, -⟩ := by simpa using hsplit
        exact .inl hover
    | cons e before =>
        obtain ⟨rfl, rfl⟩ := by simpa using hsplit
        obtain ⟨p, hp, h⟩ := bind_eq_ok.mp hps
        obtain ⟨qs, hqs, -⟩ := bind_eq_ok.mp h
        exact .inr ⟨⟨p, hp⟩, before, key, w, after, rfl, ⟨qs, hqs⟩, hover⟩
  · rintro (hover | ⟨⟨p, hp⟩, before, key, w, after, rfl, ⟨qs, hqs⟩, hover⟩)
    · exact ⟨[], name, v, rest, rfl, ⟨[], rfl⟩, hover⟩
    · refine ⟨(.text name, v) :: before, key, w, after, rfl, ⟨(name, p) :: qs, ?_⟩, hover⟩
      exact bind_eq_ok.mpr ⟨p, hp, bind_eq_ok.mpr ⟨qs, hqs, rfl⟩⟩

theorem params_eq_defect_iff (h : Decoded (.mapping declared)) :
    params declared = .error (.defect d) ↔
      d = .integerBeyondFloat ∧ OverflowingParams declared := by
  have hv : ∀ e ∈ declared, Decoded e.2 := fun e he => h.of_mem_mapping he
  have hkey : ∀ e ∈ declared, ∃ s, e.1 = .text s := fun e he => h.key_of_mem he
  -- The rest of a decoded object is met as a list of entries, not as a decoded object of its own.
  clear h
  induction declared with
  | nil => simp [params, OverflowingParams]
  | cons e rest ih =>
      obtain ⟨key, v⟩ := e
      obtain ⟨name, rfl⟩ := hkey _ List.mem_cons_self
      have hrest := ih (fun e he => hv e (List.mem_cons_of_mem _ he))
        (fun e he => hkey e (List.mem_cons_of_mem _ he))
      have hparam : param name v = .error (.defect d) ↔
          d = .integerBeyondFloat ∧ OverflowingParam name v :=
        param_eq_defect_iff (hv _ List.mem_cons_self)
      rw [overflowingParams_cons, params, bind_eq_error, hparam]
      constructor
      · rintro (⟨hd, hover⟩ | ⟨p, hp, h⟩)
        · exact ⟨hd, .inl hover⟩
        · rcases bind_eq_error.mp h with h | ⟨_, -, h⟩
          · obtain ⟨hd, hover⟩ := hrest.mp h
            exact ⟨hd, .inr ⟨⟨p, hp⟩, hover⟩⟩
          · simp [pure, Except.pure] at h
      · rintro ⟨hd, hover | ⟨⟨p, hp⟩, hover⟩⟩
        · exact .inl ⟨hd, hover⟩
        · exact .inr ⟨p, hp, bind_eq_error.mpr (.inl (hrest.mpr ⟨hd, hover⟩))⟩

/-- The object under `url`, which has to be there. -/
def requireUrl (fields : Fields) : Except Failure Fields :=
  match Value.field "url" fields with
  | .null => fail (.missingField "url")
  | v => requireMapping v "url"

theorem reports_requireUrl : Reports (requireUrl fields) := by
  unfold requireUrl
  split
  · exact reports_fail _
  · exact reports_requireMapping

theorem requireUrl_eq_ok {url : Fields} :
    requireUrl fields = .ok url ↔ requireMapping (Value.field "url" fields) "url" = .ok url := by
  unfold requireUrl
  split
  · rename_i hnull
    rw [hnull]
    simp [fail, invalid, requireMapping, Value.unfold]
  · rfl

theorem assemble_eq :
    assemble document = (do
      let (name, fields) ← unwrap document
      let verbs ← verbs (Value.field "methods" fields)
      let url ← requireUrl fields
      let parts ← requireMapping ((Value.field "parts" url).orElse (.mapping [])) "url.parts"
      let paths ← paths url parts
      let declared ← requireMapping ((Value.field "params" url).orElse (.mapping [])) "url.params"
      let params ← params declared
      let documentation ← documentation (Value.field "documentation" fields)
      let body ← body (Value.field "body" fields)
      return { name, documentation, verbs, paths, params, body }) := by
  unfold assemble requireUrl
  congr
  funext ⟨name, fields⟩
  dsimp only
  congr
  funext methods
  generalize Value.field "url" fields = v
  cases v <;> rfl

/-- A document ends the run exactly when one of its defaults overflows before anything in it is at
fault. -/
theorem assemble_eq_defect_iff (h : Decoded (.mapping document)) :
    assemble document = .error (.defect d) ↔ d = .integerBeyondFloat ∧ Overflows document := by
  rw [assemble_eq]
  constructor
  · intro hrun
    obtain ⟨⟨name, fields⟩, hunwrap, hrun⟩ := (reports_unwrap h).bind_eq_defect.mp hrun
    have hfields := decoded_of_unwrap h hunwrap
    obtain ⟨methods, hmethods, hrun⟩ := (reports_verbs (hfields.field _)).bind_eq_defect.mp hrun
    obtain ⟨url, hurl, hrun⟩ := reports_requireUrl.bind_eq_defect.mp hrun
    rw [requireUrl_eq_ok] at hurl
    have hdecoded := decoded_of_requireMapping (hfields.field _) hurl
    obtain ⟨parts, hparts, hrun⟩ := reports_requireMapping.bind_eq_defect.mp hrun
    have hpartsDecoded := decoded_of_requireMapping (hdecoded.field _ |>.orElse .nil_mapping) hparts
    obtain ⟨templates, htemplates, hrun⟩ := (reports_paths hpartsDecoded).bind_eq_defect.mp hrun
    obtain ⟨declared, hdeclared, hrun⟩ := reports_requireMapping.bind_eq_defect.mp hrun
    have hparams := decoded_of_requireMapping (hdecoded.field _ |>.orElse .nil_mapping) hdeclared
    rcases bind_eq_error.mp hrun with hrun | ⟨ps, -, hrun⟩
    · obtain ⟨hd, hover⟩ := (params_eq_defect_iff hparams).mp hrun
      exact ⟨hd, declared, ⟨name, fields, methods, url, parts, templates, hunwrap, hmethods, hurl,
        hparts, htemplates, hdeclared⟩, hover⟩
    -- Nothing behind the parameters ends a run.
    · refine absurd hrun (Reports.bind reports_documentation (fun _ _ => ?_) d)
      exact (reports_body (hfields.field _)).bind fun _ _ => reports_pure _
  · rintro ⟨hd, declared, ⟨name, fields, methods, url, parts, templates, hunwrap, hmethods, hurl,
      hparts, htemplates, hdeclared⟩, hover⟩
    have hfields := decoded_of_unwrap h hunwrap
    have hdecoded := decoded_of_requireMapping (hfields.field _) hurl
    have hparams := decoded_of_requireMapping (hdecoded.field _ |>.orElse .nil_mapping) hdeclared
    refine bind_eq_error.mpr (.inr ⟨(name, fields), hunwrap, ?_⟩)
    refine bind_eq_error.mpr (.inr ⟨methods, hmethods, ?_⟩)
    refine bind_eq_error.mpr (.inr ⟨url, requireUrl_eq_ok.mpr hurl, ?_⟩)
    refine bind_eq_error.mpr (.inr ⟨parts, hparts, ?_⟩)
    refine bind_eq_error.mpr (.inr ⟨templates, htemplates, ?_⟩)
    refine bind_eq_error.mpr (.inr ⟨declared, hdeclared, ?_⟩)
    exact bind_eq_error.mpr (.inl ((params_eq_defect_iff hparams).mpr ⟨hd, hover⟩))

end Parameters

end EndpointBindings.Assembly
