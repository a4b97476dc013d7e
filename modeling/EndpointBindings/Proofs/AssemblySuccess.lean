import EndpointBindings.Assembly
import EndpointBindings.Proofs.AssemblyDefects
import EndpointBindings.Proofs.RelatedLists

/-!
What a document gives where it is not at fault. Each step of the assembly is told by one equation
for its result; together they say what an assembled endpoint has from its document.
-/

namespace EndpointBindings.Assembly

variable {α β : Type}

@[simp] theorem fail_ne_ok {error : SpecError} {a : α} :
    (fail error : Except Failure α) ≠ .ok a := by
  simp [fail]

@[simp] theorem invalid_ne_ok {fault : DocumentFault} {a : α} :
    (invalid fault : Except Failure α) ≠ .ok a := by
  simp [invalid]

theorem pure_eq_ok {a b : α} : (pure a : Except Failure α) = .ok b ↔ b = a := by
  simp [pure, Except.pure, eq_comm]

theorem mapM_eq_ok {f : α → Except Failure β} {l : List α} {bs : List β} :
    l.mapM f = .ok bs ↔ List.Forall₂ (fun a b => f a = .ok b) l bs := by
  induction l generalizing bs with
  | nil => simp [pure_eq_ok]
  | cons a rest ih =>
      simp only [List.mapM_cons, bind_eq_ok, pure_eq_ok, ih, List.forall₂_cons_left_iff]
      constructor
      · rintro ⟨b, hb, more, hmore, rfl⟩
        exact ⟨b, more, hb, hmore, rfl⟩
      · rintro ⟨b, more, hb, hmore, rfl⟩
        exact ⟨b, hb, more, hmore, rfl⟩

section Values

variable {v : Value} {field s : String} {b : Bool} {text : Option String} {entries : Fields}
  {items : List Value}

theorem requireMapping_eq_ok :
    requireMapping v field = .ok entries ↔ v.unfold = .mapping entries := by
  unfold requireMapping
  split
  · rename_i h
    simp [h]
  · rename_i h
    simpa using h entries

theorem requireList_eq_ok : requireList v field = .ok items ↔ v.unfold = .list items := by
  unfold requireList
  split
  · rename_i h
    simp [h]
  · rename_i h
    simpa using h items

/-- The text that a value is, if it is one or null. -/
def optional (text : Option String) : Value := text.elim .null .text

theorem optionalText_eq_ok : optionalText v field = .ok text ↔ v = optional text := by
  unfold optionalText
  split
  · cases text <;> simp [optional]
  · cases text <;> simp [optional, eq_comm]
  · rename_i hnull htext
    cases text with
    | none => simpa [optional] using hnull
    | some t => simpa [optional] using htext t

theorem flag_eq_ok : flag v field = .ok b ↔ v = .bool b ∨ v = .null ∧ b = false := by
  unfold flag
  split
  · simp [eq_comm]
  · simp
  · rename_i hnull hbool
    have hnull : v ≠ .null := hnull
    have hbool : v ≠ .bool b := hbool b
    simp [bind_eq_ok, hnull, hbool]

theorem textOf_eq_ok : textOf v = .ok s ↔ v.hasLongInteger = false ∧ s = v.toText := by
  unfold textOf Value.shownText
  rw [mapError_eq_ok]
  split
  · rename_i h
    simp [h]
  · rename_i h
    simp [h, eq_comm]

/-- What is blank stays so when it is unfolded. -/
theorem isBlank_fillItems {label : Nat} {whole : Value} (v : Value) :
    (Value.fillItems label whole v).isBlank = v.isBlank := by
  cases v with
  | list items => cases items <;> rfl
  | tuple items => cases items <;> rfl
  | mapping entries => cases entries <;> rfl
  | _ => rfl

theorem isBlank_unfold (v : Value) : v.unfold.isBlank = v.isBlank := by
  cases v with
  | loop label body => exact isBlank_fillItems body
  | _ => rfl

end Values

section Types

variable {declaration : Fields} {field name : String} {texts : List String} {type : ValueType}

theorem options_eq_ok : options declaration field = .ok texts ↔
    (Value.field "options" declaration = .null ∧ texts = []) ∨
      ∃ items, (Value.field "options" declaration).unfold = .list items ∧
        (∀ v ∈ items, v.hasLongInteger = false) ∧ texts = items.map Value.toText := by
  have hlist : ∀ items, List.Forall₂ (fun v s => v.hasLongInteger = false ∧ s = v.toText) items
      texts ↔ (∀ v ∈ items, v.hasLongInteger = false) ∧ texts = items.map Value.toText := by
    intro items
    rw [List.forall₂_and_left]
    refine and_congr_right fun _ => ?_
    rw [eq_comm, ← List.forall₂_eq_eq_eq, List.forall₂_map_left_iff]
    simp only [eq_comm]
  unfold options
  generalize Value.field "options" declaration = v
  split
  · constructor
    · intro h
      exact .inl ⟨rfl, (Except.ok.inj h).symm⟩
    · rintro (⟨-, rfl⟩ | ⟨items, hitems, -⟩)
      · rfl
      · simp [Value.unfold] at hitems
  · rename_i hnull
    have hnull : v ≠ .null := hnull
    simp only [bind_eq_ok, requireList_eq_ok, mapM_eq_ok, textOf_eq_ok, hlist]
    simp [hnull]

theorem resolveType_eq_ok :
    resolveType name texts = .ok type ↔ ValueType.resolve? name texts = some type := by
  unfold resolveType
  split
  · rename_i h
    simp [h]
  · rename_i h
    simp [h]

theorem declaredType_eq_ok : declaredType declaration field = .ok type ↔
    Value.field "type" declaration ≠ .null ∧
      (Value.field "type" declaration).hasLongInteger = false ∧
      ∃ texts, options declaration field = .ok texts ∧
        ValueType.resolve? (Value.field "type" declaration).toText texts = some type := by
  unfold declaredType
  generalize Value.field "type" declaration = v
  split
  · simp
  · rename_i hnull
    simp only [bind_eq_ok, textOf_eq_ok, resolveType_eq_ok]
    constructor
    · rintro ⟨name, ⟨hlong, rfl⟩, texts, htexts, htype⟩
      exact ⟨hnull, hlong, texts, htexts, htype⟩
    · rintro ⟨-, hlong, texts, htexts, htype⟩
      exact ⟨_, ⟨hlong, rfl⟩, texts, htexts, htype⟩

end Types

section Paths

variable {parts url : Fields} {raw : String} {group : List Char} {p : PathPart}
  {chunk : PathTemplate.Chunk} {s : Segment} {t : PathTemplate} {ts : List PathTemplate}

theorem part_eq_ok : part parts raw group = .ok p ↔
    p.name = String.ofList (Text.trim group) ∧ p.name ≠ "" ∧
      ∃ declaration, (Value.field p.name parts).unfold = .mapping declaration ∧
        declaredType declaration ("url.parts." ++ p.name) = .ok p.type ∧
        Value.field "description" declaration = optional p.description := by
  unfold part
  dsimp only
  generalize String.ofList (Text.trim group) = name
  split
  · rename_i hempty
    simp_all
  · rename_i hne
    have hne : name ≠ "" := by simpa using hne
    split
    · rename_i hnull
      simp only [fail_ne_ok, false_iff]
      rintro ⟨rfl, -, declaration, hdeclaration, -⟩
      rw [hnull] at hdeclaration
      simp [Value.unfold] at hdeclaration
    · simp only [bind_eq_ok, requireMapping_eq_ok, optionalText_eq_ok, pure_eq_ok]
      constructor
      · rintro ⟨declaration, hdeclaration, type, htype, description, hdescription, rfl⟩
        exact ⟨rfl, hne, declaration, hdeclaration, htype, hdescription⟩
      · rintro ⟨rfl, -, declaration, hdeclaration, htype, hdescription⟩
        exact ⟨declaration, hdeclaration, _, htype, _, hdescription, rfl⟩

theorem segment_literal_eq_ok {text : List Char} : segment parts raw (.literal text) = .ok s ↔
    '\x7b' ∉ text ∧ '\x7d' ∉ text ∧ s = .literal (String.ofList text) := by
  unfold segment
  dsimp only
  split
  · rename_i h
    simp only [invalid_ne_ok, false_iff]
    simp only [Bool.or_eq_true, decide_eq_true_eq] at h
    tauto
  · rename_i h
    simp only [Bool.or_eq_true, decide_eq_true_eq, not_or] at h
    simp [h, eq_comm]

theorem segment_group_eq_ok : segment parts raw (.group group) = .ok s ↔
    ∃ p, part parts raw group = .ok p ∧ s = .part p := by
  simp only [segment, bind_eq_ok, pure_eq_ok]

theorem pathTemplate_eq_ok : pathTemplate raw parts = .ok t ↔
    t.raw = raw ∧ List.Forall₂ (fun chunk s => segment parts raw chunk = .ok s)
      (PathTemplate.chunks raw.toList) t.segments := by
  simp only [pathTemplate, bind_eq_ok, pure_eq_ok, mapM_eq_ok]
  constructor
  · rintro ⟨segments, hsegments, rfl⟩
    exact ⟨rfl, hsegments⟩
  · rintro ⟨rfl, hsegments⟩
    exact ⟨t.segments, hsegments, rfl⟩

theorem eraseDups_filter_cons {raw : String} {texts seen : List String} (h : raw ∉ seen) :
    ((raw :: texts).filter (· ∉ seen)).eraseDups =
      raw :: (texts.filter (· ∉ raw :: seen)).eraseDups := by
  rw [List.filter_cons_of_pos (by simpa using h), List.eraseDups_cons, List.filter_filter]
  congr 2
  apply List.filter_congr
  intro other _
  by_cases hother : other = raw <;> simp [hother]

/-- The templates of texts are those of the texts that were not seen, each once. -/
theorem pathTemplates_eq_ok {seen : List String} {raws : List Value} :
    pathTemplates parts seen raws = .ok ts ↔ ∃ texts : List String, raws = texts.map .text ∧
      List.Forall₂ (fun raw t => pathTemplate raw parts = .ok t)
        (texts.filter (· ∉ seen)).eraseDups ts := by
  fun_induction pathTemplates parts seen raws generalizing ts with
  | case1 seen => simp [eq_comm]
  | case2 seen raw rest hseen ih =>
      rw [ih]
      constructor
      · rintro ⟨texts, rfl, hts⟩
        refine ⟨raw :: texts, rfl, ?_⟩
        rwa [List.filter_cons_of_neg (by simpa using hseen)]
      · rintro ⟨texts, hraws, hts⟩
        obtain ⟨first, texts, rfl, hfirst, rfl⟩ := List.map_eq_cons_iff.mp hraws.symm
        obtain rfl := Value.text.inj hfirst
        refine ⟨texts, rfl, ?_⟩
        rwa [List.filter_cons_of_neg (by simpa using hseen)] at hts
  | case3 seen raw rest hseen ih =>
      simp only [bind_eq_ok, pure_eq_ok, ih]
      constructor
      · rintro ⟨t, ht, more, ⟨texts, rfl, hmore⟩, rfl⟩
        refine ⟨raw :: texts, rfl, ?_⟩
        rw [eraseDups_filter_cons hseen]
        exact .cons ht hmore
      · rintro ⟨texts, hraws, hts⟩
        obtain ⟨first, texts, rfl, hfirst, rfl⟩ := List.map_eq_cons_iff.mp hraws.symm
        obtain rfl := Value.text.inj hfirst
        rw [eraseDups_filter_cons hseen] at hts
        obtain ⟨t, more, ht, hmore, rfl⟩ := List.forall₂_cons_left_iff.mp hts
        exact ⟨t, ht, more, ⟨texts, rfl, hmore⟩, rfl⟩
  | case4 seen v rest hv =>
      simp only [invalid_ne_ok, false_iff]
      rintro ⟨texts, hraws, -⟩
      obtain ⟨first, texts, rfl, hfirst, rfl⟩ := List.map_eq_cons_iff.mp hraws.symm
      exact hv first hfirst.symm

theorem paths_eq_ok : paths url parts = .ok ts ↔ ∃ texts : List String, texts ≠ [] ∧
    (rawPaths url).unfold = .list (texts.map .text) ∧
    List.Forall₂ (fun raw t => pathTemplate raw parts = .ok t) texts.eraseDups ts := by
  have hall : ∀ texts : List String, texts.filter (· ∉ ([] : List String)) = texts := by simp
  simp only [paths, bind_eq_ok, requireList_eq_ok]
  constructor
  · rintro ⟨raws, hraws, h⟩
    split at h
    · simp at h
    · rename_i hne
      obtain ⟨texts, rfl, hts⟩ := pathTemplates_eq_ok.mp h
      rw [hall] at hts
      exact ⟨texts, by simpa using hne, hraws, hts⟩
  · rintro ⟨texts, hne, hraws, hts⟩
    refine ⟨_, hraws, ?_⟩
    rw [if_neg (by simpa using hne)]
    refine pathTemplates_eq_ok.mpr ⟨texts, rfl, ?_⟩
    rwa [hall]

end Paths

section Verbs

variable {v : Value} {token : Verb} {vs : List Verb}

theorem verb_eq_ok : verb v = .ok token ↔ v = .text token.token := by
  unfold verb
  split
  · rename_i s
    split
    · rename_i found hfound
      have htoken := Verb.token_of_ofToken? hfound
      constructor
      · intro h
        obtain rfl := Except.ok.inj h
        rw [htoken]
      · intro h
        obtain rfl := Value.text.inj h
        rw [Verb.ofToken?_token] at hfound
        exact congrArg _ (Option.some.inj hfound).symm
    · rename_i hnone
      simp only [fail_ne_ok, false_iff]
      intro h
      obtain rfl := Value.text.inj h
      simp at hnone
  · rename_i hv
    simp only [bind_eq_ok, fail_ne_ok, and_false, exists_false, false_iff]
    exact hv token.token

theorem verbs_eq_ok : verbs v = .ok vs ↔ ∃ listed : List Verb, listed ≠ [] ∧
    v.unfold = .list (listed.map fun token => .text token.token) ∧
    vs = Verb.canonical listed := by
  have htokens : ∀ (items : List Value) (listed : List Verb),
      List.Forall₂ (fun v token => v = Value.text (Verb.token token)) items listed ↔
        items = listed.map fun token => .text token.token := by
    intro items listed
    rw [← List.forall₂_eq_eq_eq, List.forall₂_map_right_iff]
  unfold verbs
  split
  · rename_i hblank
    simp only [fail_ne_ok, false_iff]
    rintro ⟨listed, hne, hlist, -⟩
    rw [← isBlank_unfold, hlist] at hblank
    simp [Value.isBlank, hne] at hblank
  · rename_i hblank
    simp only [bind_eq_ok, requireList_eq_ok, mapM_eq_ok, verb_eq_ok, pure_eq_ok, htokens]
    constructor
    · rintro ⟨_, hlist, listed, rfl, rfl⟩
      refine ⟨listed, ?_, hlist, rfl⟩
      rintro rfl
      rw [← isBlank_unfold, hlist] at hblank
      exact hblank rfl
    · rintro ⟨listed, -, hlist, rfl⟩
      exact ⟨_, hlist, listed, rfl, rfl⟩

end Verbs

section Parameters

variable {type : ValueType} {required : Bool} {description : Option String} {v : Value}
  {name : String} {p : Param} {declared : Fields} {ps : List (String × Param)}

theorem texts?_eq_some_iff {items : List Value} {texts : List String} :
    Default.texts? items = some texts ↔ items = texts.map .text := by
  fun_induction Default.texts? items generalizing texts with
  | case1 => cases texts <;> simp
  | case2 s rest ih =>
      rw [Option.map_eq_some_iff]
      constructor
      · rintro ⟨more, hmore, rfl⟩
        rw [ih.mp hmore, List.map_cons]
      · intro h
        obtain ⟨first, more, rfl, hfirst, hmore⟩ := List.map_eq_cons_iff.mp h.symm
        exact ⟨more, ih.mpr hmore.symm, by rw [Value.text.inj hfirst]⟩
  | case3 v rest hv =>
      simp only [reduceCtorEq, false_iff]
      intro h
      obtain ⟨first, more, rfl, hfirst, -⟩ := List.map_eq_cons_iff.mp h.symm
      exact hv first hfirst.symm

theorem fitList_eq_ok {expected : String} {d : Default} :
    Default.fitList expected v = .ok d ↔ ∃ texts : List String, d = .list texts ∧
      (v.unfold = .list (texts.map .text) ∨ v.unfold = .tuple (texts.map .text) ∨
        ∃ s, texts = [s] ∧ v.unfold = .text s) := by
  have hinj : Function.Injective (List.map Value.text) :=
    List.map_injective_iff.mpr fun _ _ => Value.text.inj
  have hother : ∀ {items : List Value}, Default.texts? items = none →
      ∀ texts : List String, items ≠ texts.map .text := by
    rintro items hnone texts hitems
    rw [texts?_eq_some_iff.mpr hitems] at hnone
    simp at hnone
  rw [Default.fitList]
  split
  · rename_i s hs
    simp [hs, eq_comm]
  · rename_i items hlist
    split
    · rename_i texts htexts
      simp [hlist, texts?_eq_some_iff.mp htexts, hinj.eq_iff, eq_comm]
    · rename_i hnone
      simp [Default.mismatch, hlist, hother hnone]
  · rename_i items htuple
    split
    · rename_i texts htexts
      simp [htuple, texts?_eq_some_iff.mp htexts, hinj.eq_iff, eq_comm]
    · rename_i hnone
      simp [Default.mismatch, htuple, hother hnone]
  · rename_i htext hlist htuple
    simp only [Default.mismatch, reduceCtorEq, false_iff]
    rintro ⟨texts, -, h | h | ⟨s, -, h⟩⟩
    · exact hlist _ h
    · exact htuple _ h
    · exact htext s h

/-- The default that a value is under a type; null is none. -/
def Defaults (type : ValueType) (v : Value) (default : Option Default) : Prop :=
  v = .null ∧ default = none ∨ v ≠ .null ∧ ∃ d, default = some d ∧ Default.fit type v = .ok d

theorem isNull_iff : v.isNull = true ↔ v = .null := by
  cases v <;> simp [Value.isNull]

theorem declare_eq_ok : Param.declare type required v description = .ok p ↔
    p.type = type ∧ p.required = required ∧ p.description = description ∧
      Defaults type v p.default := by
  unfold Param.declare Defaults
  split
  · rename_i hnull
    have hnull := isNull_iff.mp hnull
    simp only [Except.ok.injEq, hnull, true_and, ne_eq, not_true_eq_false, false_and, or_false]
    constructor
    · rintro rfl
      exact ⟨rfl, rfl, rfl, rfl⟩
    · rintro ⟨rfl, rfl, rfl, hdefault⟩
      rw [← hdefault]
  · rename_i hnull
    have hnull : v ≠ .null := fun h => hnull (isNull_iff.mpr h)
    simp only [bind_eq_ok, pure, Except.pure, Except.ok.injEq, hnull, false_and, ne_eq,
      not_false_eq_true, true_and, false_or]
    constructor
    · rintro ⟨d, hd, rfl⟩
      exact ⟨rfl, rfl, rfl, d, rfl, hd⟩
    · rintro ⟨rfl, rfl, rfl, d, hdefault, hd⟩
      exact ⟨d, hd, by rw [← hdefault]⟩

theorem param_eq_ok : param name v = .ok p ↔ ∃ declaration, v.unfold = .mapping declaration ∧
    declaredType declaration ("url.params." ++ name) = .ok p.type ∧
    (Value.field "required" declaration = .bool p.required ∨
      Value.field "required" declaration = .null ∧ p.required = false) ∧
    Value.field "description" declaration = optional p.description ∧
    Defaults p.type (Value.field "default" declaration) p.default := by
  simp only [param, bind_eq_ok, requireMapping_eq_ok, flag_eq_ok, optionalText_eq_ok,
    mapError_eq_ok, declare_eq_ok]
  constructor
  · rintro ⟨declaration, hdeclaration, type, htype, required, hrequired, description, hdescription,
      rfl, rfl, rfl, hdefault⟩
    exact ⟨declaration, hdeclaration, htype, hrequired, hdescription, hdefault⟩
  · rintro ⟨declaration, hdeclaration, htype, hrequired, hdescription, hdefault⟩
    exact ⟨declaration, hdeclaration, _, htype, _, hrequired, _, hdescription, rfl, rfl, rfl,
      hdefault⟩

theorem params_eq_ok : params declared = .ok ps ↔
    List.Forall₂ (fun e p => e.1 = .text p.1 ∧ param p.1 e.2 = .ok p.2) declared ps := by
  induction declared generalizing ps with
  | nil => simp [params, eq_comm]
  | cons e rest ih =>
      obtain ⟨key, v⟩ := e
      rw [List.forall₂_cons_left_iff]
      cases key with
      | text name =>
          simp only [params, bind_eq_ok, pure_eq_ok, ih]
          constructor
          · rintro ⟨p, hp, more, hmore, rfl⟩
            exact ⟨(name, p), more, ⟨rfl, hp⟩, hmore, rfl⟩
          · rintro ⟨⟨other, p⟩, more, ⟨hname, hp⟩, hmore, rfl⟩
            obtain rfl := Value.text.inj hname
            exact ⟨p, hp, more, hmore, rfl⟩
      | _ => simp [params, bind_eq_ok]

end Parameters

section Rest

variable {v : Value} {text name : Option String} {b : Option Body} {document fields : Fields}
  {e : Endpoint}

theorem documentation_eq_ok : documentation v = .ok text ↔ v = optional text ∨
    ∃ entries, v.unfold = .mapping entries ∧
      (Value.field "url" entries).orElse (Value.field "description" entries) = optional text := by
  unfold documentation
  split
  · rename_i entries hentries
    rw [optionalText_eq_ok]
    constructor
    · intro h
      exact .inr ⟨entries, hentries, h⟩
    · rintro (rfl | ⟨others, hothers, h⟩)
      · cases text <;> simp [optional, Value.unfold] at hentries
      · obtain rfl := Value.mapping.inj (hentries.symm.trans hothers)
        exact h
  · rename_i hmapping
    rw [optionalText_eq_ok, or_iff_left]
    rintro ⟨entries, hentries, -⟩
    exact hmapping entries hentries

/-- What a body has from an object. -/
structure BodyOf (fields : Fields) (b : Body) : Prop where
  required : Value.field "required" fields = .bool b.required ∨
    Value.field "required" fields = .null ∧ b.required = false
  description : Value.field "description" fields = optional b.description
  serialize : Value.field "serialize" fields = optional b.serialize

theorem body_eq_ok : body v = .ok b ↔ v = .null ∧ b = none ∨
    ∃ fields schema, v.unfold = .mapping fields ∧ b = some schema ∧ BodyOf fields schema := by
  unfold body
  split
  · constructor
    · intro h
      exact .inl ⟨rfl, (Except.ok.inj h).symm⟩
    · rintro (⟨-, rfl⟩ | ⟨fields, schema, hfields, -⟩)
      · rfl
      · simp [Value.unfold] at hfields
  · rename_i hnull
    have hnull : v ≠ .null := hnull
    simp only [bind_eq_ok, requireMapping_eq_ok, flag_eq_ok, optionalText_eq_ok, pure_eq_ok, hnull,
      false_and, false_or]
    constructor
    · rintro ⟨fields, hfields, required, hrequired, description, hdescription, serialize,
        hserialize, rfl⟩
      exact ⟨fields, _, hfields, rfl, hrequired, hdescription, hserialize⟩
    · rintro ⟨fields, schema, hfields, rfl, hrequired, hdescription, hserialize⟩
      exact ⟨fields, hfields, _, hrequired, _, hdescription, _, hserialize, rfl⟩

theorem unwrap_eq_ok : unwrap document = .ok (name, fields) ↔
    isBody document = true ∧ Value.field "name" document = optional name ∧ fields = document ∨
      isBody document = false ∧ ∃ key v, document = [(.text key, v)] ∧
        v.unfold = .mapping fields ∧ name = some key := by
  unfold unwrap
  split
  · rename_i hbody
    simp only [hbody, true_and, Bool.true_eq_false, false_and, or_false]
    generalize Value.field "name" document = v
    split
    · cases name <;> simp [optional, eq_comm]
    · cases name <;> simp [optional, eq_comm]
    · rename_i hnull htext
      simp only [invalid_ne_ok, false_iff, not_and]
      intro hv
      cases name with
      | none => exact absurd hv hnull
      | some s => exact absurd hv (htext s)
  · rename_i hbody
    simp only [hbody, Bool.false_eq_true, false_and, false_or, true_and]
    split
    · rename_i key v
      split
      · rename_i fields' s hfields
        constructor
        · intro h
          obtain ⟨rfl, rfl⟩ := by simpa using h
          exact ⟨s, v, rfl, hfields, rfl⟩
        · rintro ⟨s', v', hentry, hfields', rfl⟩
          obtain ⟨rfl, rfl⟩ := by simpa using hentry
          obtain rfl := Value.mapping.inj (hfields.symm.trans hfields')
          rfl
      · rename_i hkey
        simp only [bind_eq_ok, invalid_ne_ok, and_false, exists_false, false_iff]
        rintro ⟨s, v', hentry, -⟩
        obtain ⟨rfl, -⟩ := by simpa using hentry
        exact hkey s rfl
      · rename_i hmapping _
        simp only [fail_ne_ok, false_iff]
        rintro ⟨s, v', hentry, hfields, -⟩
        obtain ⟨-, rfl⟩ := by simpa using hentry
        exact hmapping fields hfields
    · rename_i hnone
      simp only [fail_ne_ok, false_iff]
      rintro ⟨s, v, rfl, -⟩
      exact hnone _ _ rfl

/-- What an endpoint has from the body of its document. -/
structure EndpointOf (fields url parts declared : Fields) (e : Endpoint) : Prop where
  verbs_eq : verbs (Value.field "methods" fields) = .ok e.verbs
  url_eq : (Value.field "url" fields).unfold = .mapping url
  parts_eq : ((Value.field "parts" url).orElse (.mapping [])).unfold = .mapping parts
  paths_eq : paths url parts = .ok e.paths
  declared_eq : ((Value.field "params" url).orElse (.mapping [])).unfold = .mapping declared
  params_eq : params declared = .ok e.params
  documentation_eq : documentation (Value.field "documentation" fields) = .ok e.documentation
  body_eq : body (Value.field "body" fields) = .ok e.body

theorem assemble_eq_ok : assemble document = .ok e ↔ ∃ fields url parts declared,
    unwrap document = .ok (e.name, fields) ∧ EndpointOf fields url parts declared e := by
  rw [assemble_eq]
  simp only [bind_eq_ok, requireUrl_eq_ok, requireMapping_eq_ok, pure_eq_ok, Prod.exists]
  constructor
  · rintro ⟨name, fields, hunwrap, verbs, hverbs, url, hurl, parts, hparts, paths, hpaths, declared,
      hdeclared, params, hparams, documentation, hdocumentation, body, hbody, rfl⟩
    exact ⟨fields, url, parts, declared, hunwrap, hverbs, hurl, hparts, hpaths, hdeclared, hparams,
      hdocumentation, hbody⟩
  · rintro ⟨fields, url, parts, declared, hunwrap, h⟩
    exact ⟨_, fields, hunwrap, _, h.verbs_eq, url, h.url_eq, parts, h.parts_eq, _, h.paths_eq,
      declared, h.declared_eq, _, h.params_eq, _, h.documentation_eq, _, h.body_eq, rfl⟩

theorem isEmittable_of_assemble (h : assemble document = .ok e) :
    e.verbs ≠ [] ∧ e.paths ≠ [] := by
  obtain ⟨fields, url, parts, declared, -, he⟩ := assemble_eq_ok.mp h
  constructor
  · obtain ⟨listed, hne, -, hverbs⟩ := verbs_eq_ok.mp he.verbs_eq
    obtain ⟨verb, hverb⟩ := List.exists_mem_of_ne_nil listed hne
    rw [hverbs]
    exact List.ne_nil_of_mem (Verb.mem_canonical.mpr hverb)
  · obtain ⟨texts, hne, -, hpaths⟩ := paths_eq_ok.mp he.paths_eq
    obtain ⟨raw, hraw⟩ := List.exists_mem_of_ne_nil texts hne
    obtain ⟨t, ht, -⟩ := exists_of_mem_forall₂ hpaths (List.mem_eraseDups.mpr hraw)
    exact List.ne_nil_of_mem ht

end Rest

end EndpointBindings.Assembly
